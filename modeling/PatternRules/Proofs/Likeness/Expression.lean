import PatternRules.Proofs.Likeness

/-!
Expressions of texts that read alike, in the order of the grammar. What stops inside its line stops at
corresponding places; what looks for an end of the line itself is where the two may part:

* `classItems_agrees`: a class that is open at the end of its line takes what the line ends in for a member,
  and complains there;
* `quantifierBounds_agrees`, `listMatch_agrees`: a broken quantifier or list match is left behind up to the end of
  its line;
* `expressionWithin_agrees`: all expressions, by induction on how deep they may nest.
-/

namespace PatternRules.Parse

variable {L : Likeness} {depth : Nat} {nested : Bool} {c c' : Cursor}

/-! ## Atoms -/

theorem rest_of_peek {ch : Char} (h : c.peek = some ch) : ∃ rest, c.rest = ch :: rest :=
  List.head?_eq_some_iff.1 h

/-- Behind a character of the line. -/
theorem place_advance (h : L.place c c') {ch : Char} (here : c.peek = some ch)
    (inside : inLine ch = true) : L.place c.advance c'.advance := by
  obtain ⟨rest, hrest⟩ := rest_of_peek here
  exact L.advance h hrest inside

theorem peek_of_not_stops {p : Char → Bool} (h : ¬ Stops p c.rest) : ∃ ch, c.peek = some ch ∧ p ch = true := by
  rw [Stops, ← Cursor.peek, Bool.not_eq_false, Option.any_eq_true] at h
  exact h

/-- What follows the backslash of an escape. -/
def escaped (start : Cursor) (next : Option Char) : Parse Node := do
  if next.any inLine then
    move Cursor.advance
  else
    report .escapeIncomplete (← spanFrom start)
  textNodeFrom .escape start []

theorem escape_eq : escape = (do
    let start ← cursor
    move Cursor.advance
    escaped start (← peek)) := by
  rw [escape]
  refine bind_congr fun start => bind_congr fun _ => bind_congr fun next => ?_
  rw [escaped]
  cases next with
  | none => rfl
  | some ch =>
    by_cases line : ch = '\n' ∨ ch = '\r'
    · have stop : ¬ (some ch).any inLine = true := by
        rcases line with rfl | rfl <;> decide
      simp only [if_pos line, if_neg stop]
    · have inside : (some ch).any inLine = true := by
        rw [not_or] at line
        simp [inLine, line]
      simp only [if_neg line, if_pos inside]

theorem escape_agrees (h : L.place c c') (here : c.peek = some '\\') :
    L.AgreeAt depth nested c c' escape escape := by
  have placed := place_advance h here (by decide)
  rw [escape_eq, agreeAt_cursor, agreeAt_move, agreeAt_peek, escaped, escaped,
    L.any_peek placed rfl rfl]
  split
  · next inside =>
    rw [agreeAt_move]
    obtain ⟨ch, next, inside⟩ := (Option.any_eq_true _ _).1 inside
    exact textNodeFrom_agrees h (place_advance placed next inside) .escape []
  · rw [agreeAt_spanFrom, L.spanFrom h placed]
    exact (report_agreeAt placed _ _).bind fun _ _ _ _ placed => textNodeFrom_agrees h placed .escape []

/-- A character of the line, or an escape. -/
theorem classChar_agrees (h : L.place c c') {ch : Char} (here : c.peek = some ch)
    (inside : inLine ch = true) : L.AgreeAt depth nested c c' classChar classChar := by
  rw [classChar, agreeAt_peek, here, (L.peek_iff h inside).2 here]
  dsimp only
  split
  · next escapes => exact escape_agrees h (escapes ▸ here)
  · refine takeLeaf_agrees h .char ?_
    obtain ⟨rest, hrest⟩ := rest_of_peek here
    rw [Cursor.run, hrest, List.takeWhile_cons_of_pos inside]
    exact Nat.succ_le_succ (Nat.zero_le _)

/-! ### Classes -/

theorem ComesTo.shorter {α : Type} {p : Parse α} {o : Outcome α} (h : ComesTo depth c nested p o)
    (advances : Advances p) (left : c.rest ≠ []) : o.cursor.rest.length < c.rest.length := by
  obtain ⟨⟨-, state⟩, reaches⟩ := (h 0 []).and (advances ⟨depth, 0⟩ ⟨c, [], nested⟩)
  rw [state] at reaches
  exact Cursor.length_lt_of_advance_reaches left reaches

/-- A hyphen at the end of a line, where a complaint tells: the next line end of the second text may be
taken for the end of a range. -/
structure HangingHyphen (L : Likeness) (c : Cursor) : Prop where
  hyphen : c.peek = some '-'
  stop : Stops (· != '\n') c.advance.rest
  tells : ∀ complaint : Complaint, L.tells ⟨complaint.message, c.advance.nextSpan⟩

/-- Whether a hyphen stands between two ends of a range. -/
theorem atRangeHyphen_eq : atRangeHyphen = (do
    let c ← cursor
    return c.peek = some '-' && c.advance.peek.any fun next => next != ']' && next != '\n') := by
  refine bind_congr fun c => ?_
  rw [Cursor.peekAt, Cursor.peek, Cursor.peek, Cursor.rest_advance, List.head?_tail]

/-- A member of a class and what is read behind it. -/
theorem classItem_agrees {α : Type} [HasTexts α] (h : L.place c c') {ch : Char} (here : c.peek = some ch)
    (inside : inLine ch = true) {f g : Node → Parse α}
    (next : ∀ nested d d' b, L.place d d' → d.rest.length < c.rest.length →
      L.AgreeAt depth nested d d' (f (mapTexts L.view b)) (g b))
    (hanging : ∀ nested d d' b, L.place d d' → d.rest.length < c.rest.length → HangingHyphen L d →
      ∃ o, ComesTo depth d nested (f (mapTexts L.view b)) o ∧ L.Tells o) :
    L.AgreeAt depth nested c c' (classItem >>= f) (classItem >>= g) := by
  have left : c.rest ≠ [] := left_of_peek here
  simp only [classItem, bind_assoc]
  rw [agreeAt_cursor]
  refine (classChar_agrees h here inside).bind' (P := fun _ d => d.rest.length < c.rest.length)
    (fun o comes => comes.shorter classChar_advances left) ?_
  intro nested d d' low placed shorter
  have behind := next nested d d' low placed shorter
  simp only [atRangeHyphen_eq, bind_assoc, pure_bind]
  rw [agreeAt_cursor]
  by_cases hyphen : d.peek = some '-'
  · have hyphen' := (L.peek_iff placed (by decide)).2 hyphen
    have placed₁ := place_advance placed hyphen (by decide)
    simp only [hyphen, hyphen', decide_true, Bool.true_and]
    by_cases stop : Stops inLine d.advance.rest
    · have atEnd {e : Cursor} (stop : Stops (· != '\n') e.rest) :
          (e.peek.any fun next => next != ']' && next != '\n') = false :=
        stop.mono fun ch line => by rw [line, Bool.and_false]
      have ends := L.stops_newline placed₁ stop
      rw [atEnd ends]
      rcases L.lineEnd placed₁ stop with ends' | tells
      · rw [atEnd ends']
        simp only [Bool.false_eq_true, if_false, pure_bind]
        exact behind
      · simp only [Bool.false_eq_true, if_false, pure_bind]
        obtain ⟨o, comes, telling⟩ := hanging nested d d' low placed shorter ⟨hyphen, ends, tells⟩
        exact ⟨o, comes, .inl telling⟩
    · obtain ⟨x, hx, inside⟩ := peek_of_not_stops stop
      rw [(L.peek_iff placed₁ inside).2 hx, hx]
      split
      · simp only [bind_assoc]
        rw [agreeAt_move]
        have more := left_of_peek hx
        refine (classChar_agrees placed₁ hx inside).bind'
          (P := fun _ e => e.rest.length < d.advance.rest.length)
          (fun o comes => comes.shorter classChar_advances more) ?_
        intro nested e e' high placed₂ shorter₂
        refine textNodeFrom_then h placed₂ [low, high] fun b _ => next nested e e' b placed₂ ?_
        have := Cursor.length_le_of_reaches (Cursor.reaches_advance d)
        omega
      · simp only [pure_bind]
        exact behind
  · have hyphen' : d'.peek ≠ some '-' := fun e => hyphen ((L.peek_iff placed (by decide)).1 e)
    simp only [hyphen, hyphen', decide_false, Bool.false_and, Bool.false_eq_true, if_false, pure_bind]
    exact behind

/-- At the end of its line a class is not closed. -/
theorem nextClassItem_of_stops (stop : Stops (· != '\n') c.rest) : ComesTo depth c nested nextClassItem
    ⟨none, c, nested, [⟨Complaint.classUnclosed.message, c.nextSpan⟩]⟩ := by
  have unclosed : ComesTo depth c nested (do reportHere .classUnclosed; return (none : Option Node))
      ⟨none, c, nested, [⟨Complaint.classUnclosed.message, c.nextSpan⟩]⟩ :=
    comesTo_reportHere_then _ none
  intro cap errors
  rw [nextClassItem, ensures_bind, ensures_peek]
  cases hp : c.peek with
  | none => exact unclosed cap errors
  | some ch =>
    rw [Stops, ← Cursor.peek, hp, Option.any_some, bne_eq_false_iff_eq] at stop
    dsimp only
    rw [if_pos stop]
    exact unclosed cap errors

theorem noClassItems_of_stops (stop : Stops (· != '\n') c.rest) (n : Nat) :
    ComesTo depth c nested (manyFuel nextClassItem (n + 1))
      ⟨[], c, nested, [⟨Complaint.classUnclosed.message, c.nextSpan⟩]⟩ := by
  intro cap errors
  refine (nextClassItem_of_stops stop cap errors).bind ?_
  rintro _ _ ⟨rfl, rfl⟩
  exact ⟨rfl, rfl⟩

/-- A hyphen at the end of a line is read as it is. -/
theorem nextClassItem_of_hanging (hanging : HangingHyphen L c) : ComesTo depth c nested nextClassItem
    ⟨some ⟨.char, some (.text (String.ofList (c.advance.textSince c))), [], c.advance.spanFrom c.mark⟩,
      c.advance, nested, []⟩ := by
  have noHyphen : c.advance.peek ≠ some '-' := by
    intro e
    have stop := hanging.stop
    rw [Stops, ← Cursor.peek, e] at stop
    cases stop
  refine .quiet fun cap errors => ?_
  have notNewline : '-' ≠ '\n' := by decide
  have notClosing : '-' ≠ ']' := by decide
  have notBackslash : '-' ≠ '\\' := by decide
  simp only [nextClassItem, classItem, classChar, atRangeHyphen, takeLeaf, ensures_bind, ensures_peek,
    hanging.hyphen, if_neg notNewline, if_neg notClosing, if_neg notBackslash, ensures_cursor, ensures_move,
    ensures_textNodeFrom, ensures_pure, Cursor.advanceBy]
  rw [decide_eq_false noHyphen, Bool.false_and, if_neg Bool.false_ne_true]
  exact ⟨rfl, rfl⟩

/-- Behind a hanging hyphen the class is found to be open. -/
theorem hangingHyphen_tells {n : Nat} (h : L.place c c') (hanging : HangingHyphen L c)
    (enough : c.rest.length < n) :
    ∃ o, ComesTo depth c nested (manyFuel nextClassItem n) o ∧ L.Tells o := by
  obtain ⟨rest, hrest⟩ := rest_of_peek hanging.hyphen
  obtain ⟨n, rfl⟩ : ∃ k, n = k + 2 := ⟨n - 2, by rw [hrest, List.length_cons] at enough; omega⟩
  have placed := place_advance h hanging.hyphen (by decide)
  have hyphen := textNode_eq h placed .char []
  refine ⟨⟨[_], c.advance, nested, [⟨Complaint.classUnclosed.message, c.advance.nextSpan⟩]⟩, ?_,
    ⟨[_], congrArg (fun node => [node]) hyphen⟩, ⟨_, placed⟩, _, List.mem_singleton.2 rfl, hanging.tells _⟩
  intro cap errors
  refine (nextClassItem_of_hanging hanging cap errors).bind ?_
  rintro _ _ ⟨rfl, rfl⟩
  refine (noClassItems_of_stops hanging.stop n cap _).bind ?_
  rintro _ _ ⟨rfl, rfl⟩
  refine ⟨rfl, ?_⟩
  rw [Outcome.state, Outcome.state, List.take_nil, List.append_nil]
  rfl

/-- The members of a class agree. By induction on the fuel. -/
theorem classItems_agrees {n m : Nat} (h : L.place c c') (enough : c.rest.length < n) (more : n ≤ m) :
    L.AgreeAt depth nested c c' (manyFuel nextClassItem n) (manyFuel nextClassItem m) := by
  induction n generalizing nested c c' m with
  | zero => omega
  | succ n ih =>
    obtain ⟨m, rfl⟩ : ∃ k, m = k + 1 := ⟨m - 1, by omega⟩
    by_cases stop : Stops inLine c.rest
    · have ends : ComesTo depth c nested (manyFuel nextClassItem (n + 1)) _ :=
        noClassItems_of_stops (L.stops_newline h stop) n
      rcases L.lineEnd h stop with stop' | tells
      · refine ⟨_, ends, .inr ⟨_, noClassItems_of_stops stop' m, rfl, h, rfl, ?_⟩⟩
        rw [Cursor.nextSpan_of_stops stop', Cursor.nextSpan_of_stops (L.stops_newline h stop),
          L.line_eq h, L.column_eq h]
      · exact ⟨_, ends, .inl ⟨⟨[], rfl⟩, ⟨c', h⟩, _, List.mem_singleton.2 rfl, tells _⟩⟩
    · obtain ⟨ch, here, inside⟩ := peek_of_not_stops stop
      have here' := (L.peek_iff h inside).2 here
      have line : ch ≠ '\n' := fun e => by rw [e] at inside; cases inside
      simp only [manyFuel, nextClassItem, bind_assoc]
      rw [agreeAt_peek, here, here']
      simp only [if_neg line]
      split
      · next closing =>
        simp only [bind_assoc, pure_bind]
        rw [agreeAt_move]
        exact .pure (place_advance h here inside) []
      · simp only [bind_assoc, pure_bind]
        refine classItem_agrees h here inside ?_ ?_
        · intro nested d d' b placed shorter
          exact (ih placed (by omega) (by omega)).bind fun _ _ _ bs placed => .pure placed (b :: bs)
        · intro nested d d' b placed shorter hanging
          obtain ⟨o, comes, tells⟩ := hangingHyphen_tells placed hanging
            (Nat.lt_of_lt_of_le shorter (Nat.le_of_lt_succ enough))
          exact Likeness.AgreeAt.then_tells (g := fun bs => pure (b :: bs)) comes tells
            fun bs _ placed _ => .pure placed (b :: bs)

theorem charClass_agrees (h : L.place c c') (here : c.peek = some '[') :
    L.AgreeAt depth nested c c' charClass charClass := by
  rw [charClass, agreeAt_cursor, agreeAt_move]
  have placed := place_advance h here (by decide)
  rw [many, bind_assoc, bind_assoc, agreeAt_cursor]
  refine (classItems_agrees placed (Nat.lt_succ_self _) (Nat.succ_le_succ (L.length_le placed))).bind ?_
  intro nested d d' items placed
  exact textNodeFrom_agrees h placed .charClass items

/-- At the end of a line there is no atom. -/
theorem atom_declines {limits : Limits} {s : ParseState} (stop : Stops inLine s.cursor.rest) :
    Declines limits s atom := by
  rw [Declines, atom, ensures_bind, ensures_peek]
  cases hp : s.cursor.peek with
  | none => exact ⟨rfl, rfl⟩
  | some ch =>
    have line : ch = '\n' ∨ ch = '\r' := by
      rw [Stops, ← Cursor.peek, hp, Option.any_some, inLine, Bool.and_eq_false_iff] at stop
      exact stop.imp bne_eq_false_iff_eq.1 bne_eq_false_iff_eq.1
    have noName : Declines limits s identifier := identifier_nothing (by
      rw [hp]
      rcases line with rfl | rfl <;> rfl)
    rcases line with rfl | rfl <;> exact noName

theorem atom_agrees : L.Agrees atom := by
  intro depth nested c c' h
  by_cases stop : Stops inLine c.rest
  · have stop' : Stops inLine c'.rest := (L.any_peek h rfl rfl).trans stop
    exact declines_agree h (fun _ _ => atom_declines stop) fun _ _ => atom_declines stop'
  · obtain ⟨ch, here, inside⟩ := peek_of_not_stops stop
    have one : 1 ≤ (c.run inLine).length := by
      obtain ⟨rest, hrest⟩ := rest_of_peek here
      rw [Cursor.run, hrest, List.takeWhile_cons_of_pos inside]
      exact Nat.succ_le_succ (Nat.zero_le _)
    rw [atom, agreeAt_peek, here, (L.peek_iff h inside).2 here]
    dsimp only
    split
    · next escapes => exact some_agrees (escape_agrees h (here.trans (congrArg some escapes)))
    · split
      · exact some_agrees (takeLeaf_agrees h .anchor one)
      · split
        · exact some_agrees (takeLeaf_agrees h .dot one)
        · split
          · next opened => exact some_agrees (charClass_agrees h (here.trans (congrArg some opened)))
          · split
            · exact string_agrees depth nested c c' h
            · exact identifier_agrees depth nested c c' h

/-! ## List matches -/

theorem toList_agrees {α : Type} [HasTexts α] (h : L.place c c') (b : Option α) :
    L.AgreeAt depth nested c c' (pure (mapTexts L.view b).toList) (pure b.toList) := by
  cases b with
  | none => exact .pure h []
  | some b => exact .pure h [b]

theorem place_skipInlineBlank (h : L.place c c') : L.place c.skipInlineBlank c'.skipInlineBlank :=
  L.skipWhile h rfl rfl

theorem filterArgument_agrees : L.Agrees filterArgument := by
  intro depth nested c c' h
  rw [filterArgument, agreeAt_skipInlineBlank]
  refine (orReport_agrees (string_agrees _ _ _ _ (place_skipInlineBlank h)) _).bind ?_
  intro nested d d' argument placed
  rw [agreeAt_skipInlineBlank]
  refine (eatChar_agrees (by decide) _ _ _ _ (place_skipInlineBlank placed)).bind ?_
  intro nested e e' closed placed
  exact complaining_agrees placed _ (reportHere_agrees _) fun nested _ _ placed => toList_agrees placed argument

theorem filter_agrees : L.Agrees filter := by
  intro depth nested c c' h
  rw [filter, agreeAt_cursor]
  refine (orReport_agrees (identifier_agrees _ _ _ _ h) _).bind ?_
  rintro nested d d' (_ | name) placed
  · exact .pure placed none
  · refine (eatChar_agrees (by decide) _ _ _ _ placed).bind ?_
    rintro nested d d' (_ | _) placed
    · refine (reportHere_agrees _ _ _ _ _ placed).bind fun nested d d' _ placed => ?_
      exact some_agrees (branchFrom_agrees h placed .filter [name])
    · refine (filterArgument_agrees _ _ _ _ placed).bind fun nested d d' argument placed => ?_
      exact some_agrees (branchFrom_agrees h placed .filter (name :: argument))

theorem listFilter_agrees : L.Agrees listFilter := by
  intro depth nested c c' h
  refine (eatChar_agrees (by decide) _ _ _ _ h).bind ?_
  rintro nested d d' (_ | _) placed
  · exact .pure placed []
  · refine (agreeAt_skipInlineBlank _ _).2 ?_
    refine (filter_agrees _ _ _ _ (place_skipInlineBlank placed)).bind fun nested d d' filter placed => ?_
    rw [agreeAt_skipInlineBlank]
    exact toList_agrees (place_skipInlineBlank placed) filter

theorem listMatch_agrees (h : L.place c c') (here : c.checkLiteral "[[" = true) :
    L.AgreeAt depth nested c c' listMatch listMatch := by
  have opened : L.place (c.advanceBy 2) (c'.advanceBy 2) := place_literal h (by decide) here
  rw [listMatch, agreeAt_cursor, agreeAt_move, agreeAt_skipInlineBlank]
  have inside := place_skipInlineBlank opened
  refine orReport_then_agrees (identifier_agrees _ _ _ _ inside) ?_ ?_
  · intro nested d d' placed
    exact leaving_agrees placed (L.brackets placed (.inl rfl))
      fun _ _ placed => branchFrom_agrees h placed .listMatch []
  · intro nested d d' name placed
    rw [agreeAt_skipInlineBlank]
    refine (listFilter_agrees _ _ _ _ (place_skipInlineBlank placed)).bind fun nested d d' filter placed => ?_
    refine (eatLiteral_agrees (by decide) _ _ _ _ placed).bind ?_
    rintro nested d d' (_ | _) placed
    · exact leaving_agrees placed (L.brackets placed (.inr rfl))
        fun _ _ placed => branchFrom_agrees h placed .listMatch (name :: filter)
    · exact branchFrom_agrees h placed .listMatch (name :: filter)

/-! ## Groups and captures -/

theorem reportUnlessNested_agrees (complaint : Complaint) : L.Agrees (reportUnlessNested complaint) := by
  rintro depth (_ | _) c c' h
  · exact reportHere_agrees complaint depth false c c' h
  · have silent : L.AgreeAt depth true c c' (pure ()) (pure ()) := .pure h ()
    exact silent

section

variable {inner : Parse (Option Node)}

theorem enclosed_agrees (missing : Complaint) (agree : L.Agrees (afterBlank inner)) :
    L.Agrees (enclosed missing inner) := by
  intro depth nested c c' h
  have closing {nested : Bool} {c c' : Cursor} (h : L.place c c') (body : Option Node) :
      L.AgreeAt depth nested c c'
        (do
          if !(← eatCharAfterBlank ')') then
            reportUnlessNested .parenthesisUnclosed
          return (mapTexts L.view body).toList)
        (do
          if !(← eatCharAfterBlank ')') then
            reportUnlessNested .parenthesisUnclosed
          return body.toList) := by
    refine (eatCharAfterBlank_agrees (by decide) _ _ _ _ h).bind fun nested d d' closed placed => ?_
    exact complaining_agrees placed _ (reportUnlessNested_agrees _)
      fun nested _ _ placed => toList_agrees placed body
  refine (agree _ _ _ _ h).bind ?_
  rintro nested d d' (_ | body) placed
  · exact (reportUnlessNested_agrees missing _ _ _ _ placed).bind fun _ _ _ _ placed => closing placed none
  · exact closing placed (some body)

theorem group_agrees (agree : L.Agrees (afterBlank inner)) (h : L.place c c') (here : c.peek = some '(') :
    L.AgreeAt depth nested c c' (group inner) (group inner) := by
  rw [group, agreeAt_cursor, agreeAt_move]
  refine (enclosed_agrees _ agree _ _ _ _ (place_advance h here (by decide))).bind ?_
  exact fun _ _ _ body placed => branchFrom_agrees h placed .group body

theorem captureParts_agrees (agree : L.Agrees (afterBlank inner)) : L.Agrees (captureParts inner) := by
  intro depth nested c c' h
  refine (orReport_agrees (identifier_agrees _ _ _ _ h) _).bind ?_
  rintro nested d d' (_ | name) placed
  · exact .pure placed []
  · refine (eatChar_agrees (by decide) _ _ _ _ placed).bind ?_
    rintro nested d d' (_ | _) placed
    · exact (reportHere_agrees _ _ _ _ _ placed).bind fun _ _ _ _ placed => .pure placed [name]
    · exact (enclosed_agrees _ agree _ _ _ _ placed).bind fun _ _ _ body placed => .pure placed (name :: body)

theorem namedCapture_agrees (agree : L.Agrees (afterBlank inner)) (h : L.place c c')
    (here : c.checkLiteral "(?P<" = true) :
    L.AgreeAt depth nested c c' (namedCapture inner) (namedCapture inner) := by
  have opened : L.place (c.advanceBy 4) (c'.advanceBy 4) := place_literal h (by decide) here
  rw [namedCapture, agreeAt_cursor, agreeAt_move]
  refine (captureParts_agrees agree _ _ _ _ opened).bind ?_
  exact fun _ _ _ parts placed => branchFrom_agrees h placed .namedCapture parts

end

/-! ## Quantifiers -/

theorem quantifierBounds_agrees {start start' : Cursor} (begins : L.place start start') (h : L.place c c')
    (least : Node) : L.AgreeAt depth nested c c' (quantifierBounds start (mapTexts L.view least))
      (quantifierBounds start' least) := by
  have closing {nested : Bool} {c c' : Cursor} (h : L.place c c') (kind : Kind) (most : List Node) :
      L.AgreeAt depth nested c c'
        (do
          skipInlineBlank
          if !(← eatChar '}') then
            reportHere .quantifierUnclosed
          branchFrom kind start (mapTexts L.view (least :: most)))
        (do
          skipInlineBlank
          if !(← eatChar '}') then
            reportHere .quantifierUnclosed
          branchFrom kind start' (least :: most)) := by
    rw [agreeAt_skipInlineBlank]
    refine (eatChar_agrees (by decide) _ _ _ _ (place_skipInlineBlank h)).bind ?_
    intro nested d d' closed placed
    exact complaining_agrees placed _ (reportHere_agrees _)
      fun _ _ _ placed => branchFrom_agrees begins placed kind (least :: most)
  rw [quantifierBounds, quantifierBounds, agreeAt_skipInlineBlank]
  refine (eatChar_agrees (by decide) _ _ _ _ (place_skipInlineBlank h)).bind ?_
  rintro nested d d' (_ | _) placed
  · exact closing placed .exactRange []
  · refine (agreeAt_skipInlineBlank _ _).2 ?_
    refine (number_agrees _ _ _ _ (place_skipInlineBlank placed)).bind ?_
    rintro nested d d' (_ | most) placed
    · exact closing placed .range []
    · exact closing placed .range [most]

theorem quantifier_agrees : L.Agrees quantifier := by
  intro depth nested c c' h
  rw [quantifier, agreeAt_cursor]
  refine (eatChar_agrees (by decide) _ _ _ _ h).bind ?_
  rintro nested d d' (_ | _) placed
  · refine (eatChar_agrees (by decide) _ _ _ _ placed).bind ?_
    rintro nested d d' (_ | _) placed
    · exact .pure placed none
    · refine (agreeAt_skipInlineBlank _ _).2 ?_
      refine (number_agrees _ _ _ _ (place_skipInlineBlank placed)).bind ?_
      rintro nested d d' (_ | least) placed
      · exact leaving_agrees placed (L.brace placed) fun _ _ placed => .pure placed none
      · exact some_agrees (quantifierBounds_agrees h placed least)
  · exact some_agrees (branchFrom_agrees h placed .questionMark [])

/-! ## Expressions -/

section

variable {inner : Parse (Option Node)}

theorem primary_agrees (agree : L.Agrees (afterBlank inner)) : L.Agrees (primary inner) := by
  intro depth nested c c' h
  rw [primary, agreeAt_cursor, L.checkLiteral_eq h (by decide), L.checkLiteral_eq h (by decide)]
  simp only [L.peek_iff h (show inLine '(' = true by decide)]
  split
  · next here => exact some_agrees (namedCapture_agrees agree h here)
  · split
    · next here => exact some_agrees (group_agrees agree h here)
    · split
      · next here => exact some_agrees (listMatch_agrees h here)
      · exact atom_agrees _ _ _ _ h

theorem quantified_agrees (agree : L.Agrees (afterBlank inner)) : L.Agrees (quantified inner) := by
  intro depth nested c c' h
  rw [quantified, agreeAt_cursor]
  refine (primary_agrees agree _ _ _ _ h).bind ?_
  rintro nested d d' (_ | subject) placed
  · exact .pure placed none
  · refine (quantifier_agrees _ _ _ _ placed).bind ?_
    rintro nested d d' (_ | quantifier) placed
    · exact .pure placed (some subject)
    · exact some_agrees (branchFrom_agrees h placed .quantified [subject, quantifier])

theorem item_agrees (agree : L.Agrees (afterBlank inner)) : L.Agrees (item inner) := by
  intro depth nested c c' h
  simp only [item, atBoundary, bind_assoc, pure_bind]
  rw [agreeAt_cursor, L.atKeyword_eq h (by decide), L.atRuleStart_eq h]
  split
  · exact .pure h none
  · exact quantified_agrees agree _ _ _ _ h

theorem joined_agrees {start start' : Cursor} (begins : L.place start start') (h : L.place c c')
    (kind : Kind) (first : Node) (further : List Node) :
    L.AgreeAt depth nested c c'
      (joined kind start (mapTexts L.view first) (mapTexts L.view further))
      (joined kind start' first further) := by
  cases further with
  | nil => exact .pure h (some first)
  | cons second further => exact some_agrees (branchFrom_agrees begins h kind (first :: second :: further))

theorem furtherItem_agrees (agree : L.Agrees (afterBlank inner)) : L.Agrees (afterBlank (item inner)) := by
  have fails : FailsAtEnd (item inner) := fun _ _ atEnd => item_nothing_atEnd atEnd
  intro depth nested c c' h
  exact afterBlank_agrees h (fun _ _ _ placed _ => item_agrees agree _ _ _ _ placed) (fails.endAlike fails)

theorem concatenation_agrees (reads : Reads (Each Kind.isExpression) inner)
    (agree : L.Agrees (afterBlank inner)) : L.Agrees (concatenation inner) := by
  intro depth nested c c' h
  rw [concatenation, agreeAt_cursor]
  refine (item_agrees agree _ _ _ _ h).bind ?_
  rintro nested d d' (_ | first) placed
  · exact .pure placed none
  · refine (many_agrees (furtherItem_agrees agree) (item_consumes reads).afterBlank _ _ _ _ placed).bind ?_
    exact fun _ _ _ further placed => joined_agrees h placed .concatenation first further

theorem nextBranch_agrees (reads : Reads (Each Kind.isExpression) inner)
    (agree : L.Agrees (afterBlank inner)) : L.Agrees (nextBranch inner) := by
  intro depth nested c c' h
  refine (eatCharAfterBlank_agrees (by decide) _ _ _ _ h).bind ?_
  rintro nested d d' (_ | _) placed
  · exact .pure placed none
  · have fails : FailsAtEnd (concatenation inner) :=
      fun _ _ atEnd => concatenation_nothing (item_nothing_atEnd atEnd)
    exact orReport_agrees (afterBlank_agrees placed
      (fun _ _ _ placed _ => concatenation_agrees reads agree _ _ _ _ placed) (fails.endAlike fails)) _

theorem alternation_agrees (reads : Reads (Each Kind.isExpression) inner)
    (agree : L.Agrees (afterBlank inner)) : L.Agrees (alternation inner) := by
  intro depth nested c c' h
  rw [alternation, agreeAt_cursor]
  refine (concatenation_agrees reads agree _ _ _ _ h).bind ?_
  rintro nested d d' (_ | first) placed
  · exact .pure placed none
  · refine (many_agrees (nextBranch_agrees reads agree) (nextBranch_consumes reads) _ _ _ _ placed).bind ?_
    exact fun _ _ _ further placed => joined_agrees h placed .alternation first further

end

/-- What is said about too deep a nesting. -/
theorem comesTo_tooDeep (nested : Bool) : ComesTo depth c nested (expressionWithin 0)
    ⟨none, c, true, if nested then [] else [⟨(Complaint.nestingTooDeep depth).message, c.nextSpan⟩]⟩ := by
  cases nested with
  | true => exact .quiet fun _ _ => ⟨rfl, rfl⟩
  | false =>
    have said : ComesTo depth c true _ _ := comesTo_reportHere_then (.nestingTooDeep depth) (none : Option Node)
    exact said

/-- Too deep a nesting is complained about only once. -/
theorem tooDeep_agrees : L.Agrees (expressionWithin 0) := by
  rintro depth (_ | _) c c' h
  · have said := (reportHere_agrees (.nestingTooDeep depth) depth true c c' h).bind
      (f := fun _ => pure none) (g := fun _ => pure none) fun _ _ _ _ placed => .pure placed (none : Option Node)
    exact said
  · have silent : L.AgreeAt depth true c c' (pure none) (pure none) := .pure h (none : Option Node)
    exact silent

theorem tooDeep_endAlike : EndAlike L (expressionWithin 0) (expressionWithin 0) := by
  rintro depth nested c c' ends
  refine ⟨_, comesTo_tooDeep nested, rfl, ?_⟩
  cases nested with
  | true => exact .inr ⟨_, comesTo_tooDeep true, rfl, rfl, rfl⟩
  | false => exact .inl ⟨_, List.mem_singleton.2 rfl, L.sought ends rfl⟩

/-- By induction on the levels that are left; where none is left, nesting goes too deep. -/
theorem expressionWithin_agrees (levels : Nat) : L.Agrees (afterBlank (expressionWithin levels)) := by
  induction levels with
  | zero =>
    exact fun _ _ _ _ h => afterBlank_agrees h (fun _ _ _ placed _ => tooDeep_agrees _ _ _ _ placed)
      tooDeep_endAlike
  | succ levels ih =>
    have fails : FailsAtEnd (alternation (expressionWithin levels)) :=
      fun _ _ atEnd => alternation_nothing (item_nothing_atEnd atEnd)
    exact fun _ _ _ _ h => afterBlank_agrees h
      (fun _ _ _ placed _ => alternation_agrees (expressionWithin_reads levels) ih _ _ _ _ placed)
      (fails.endAlike fails)

end PatternRules.Parse

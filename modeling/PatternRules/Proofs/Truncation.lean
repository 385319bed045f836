import PatternRules.Proofs.RuleByItself

/-!
The limit on errors only cuts off. Under a lower limit the readings of statements give the same, end at the
same place and record the first of the errors (`Impartial.under`). So a document is read in the same way until
the errors come to the lower limit (`ParseState.cut`). After that no import and no rule is read, and at most the
version and the default resolver, which are still read, differ in how reading goes on behind them
(`CutShort`). So what a lower limit leaves out is at the end, of the errors and of the statements
(`readWithin_truncates`).
-/

namespace PatternRules

/-- The state with the first of its errors, as many as are recorded at most. -/
def ParseState.cut (cap : Nat) (s : ParseState) : ParseState := { s with errors := s.errors.take cap }

namespace ParseState

variable {cap n : Nat} {s : ParseState}

@[simp]
theorem cursor_cut : (s.cut cap).cursor = s.cursor := rfl

theorem cut_of_room (room : s.errors.length < cap) : s.cut cap = s := by
  rw [cut, List.take_of_length_le (Nat.le_of_lt room)]

theorem le_length_cut : cap ≤ (s.cut cap).errors.length ↔ cap ≤ s.errors.length := by
  rw [cut, List.length_take]
  omega

/-- Whether errors are added to fewer of them than there is room for is seen among the first ones. -/
theorem lt_length_cut (room : n < cap) : n < (s.cut cap).errors.length ↔ n < s.errors.length := by
  rw [cut, List.length_take]
  omega

theorem length_cut_beq (room : n < cap) :
    ((s.cut cap).errors.length == n) = (s.errors.length == n) := by
  rw [cut, List.length_take, Bool.beq_eq_decide_eq, Bool.beq_eq_decide_eq, decide_eq_decide]
  omega

end ParseState

namespace Parse

variable {α β : Type} {depth cap cap' : Nat} {s t : ParseState}

/-- Reading with `p` from `s` under the limit `cap` and with `q` from `t` under the limit `cap'` gives results
and ends in states that satisfy `post`. -/
def Under (depth cap cap' : Nat) (s t : ParseState) (p q : Parse α)
    (post : α → ParseState → α → ParseState → Prop) : Prop :=
  Ensures ⟨depth, cap⟩ s p fun a s' => Ensures ⟨depth, cap'⟩ t q fun b t' => post a s' b t'

theorem Under.bind {p q : Parse α} {f g : α → Parse β} {post : α → ParseState → α → ParseState → Prop}
    {post' : β → ParseState → β → ParseState → Prop} (h : Under depth cap cap' s t p q post)
    (next : ∀ a s' b t', post a s' b t' → Under depth cap cap' s' t' (f a) (g b) post') :
    Under depth cap cap' s t (p >>= f) (q >>= g) post' :=
  next _ _ _ _ h

theorem Under.mono {p q : Parse α} {post post' : α → ParseState → α → ParseState → Prop}
    (h : Under depth cap cap' s t p q post) (weaker : ∀ a s' b t', post a s' b t' → post' a s' b t') :
    Under depth cap cap' s t p q post' :=
  weaker _ _ _ _ h

/-- Where the first reading does nothing. -/
theorem Under.idle {p q : Parse α} {a : α} {post : α → ParseState → α → ParseState → Prop}
    (h : Ensures ⟨depth, cap⟩ s p fun r s' => r = a ∧ s' = s) (h' : Ensures ⟨depth, cap'⟩ t q (post a s)) :
    Under depth cap cap' s t p q post := by
  refine h.mono ?_
  rintro _ _ ⟨rfl, rfl⟩
  exact h'

theorem under_cursor {post : α → ParseState → α → ParseState → Prop} (f g : Cursor → Parse α) :
    Under depth cap cap' s t (cursor >>= f) (cursor >>= g) post ↔
      Under depth cap cap' s t (f s.cursor) (g t.cursor) post :=
  Iff.rfl

theorem under_errorCount {post : α → ParseState → α → ParseState → Prop} (f g : Nat → Parse α) :
    Under depth cap cap' s t (errorCount >>= f) (errorCount >>= g) post ↔
      Under depth cap cap' s t (f s.errors.length) (g t.errors.length) post :=
  Iff.rfl

theorem under_errorsFull {post : α → ParseState → α → ParseState → Prop} (f g : Bool → Parse α) :
    Under depth cap cap' s t (errorsFull >>= f) (errorsFull >>= g) post ↔
      Under depth cap cap' s t (f (decide (cap ≤ s.errors.length))) (g (decide (cap' ≤ t.errors.length))) post :=
  Iff.rfl

/-- Both find the default resolver, or none does. -/
theorem Under.atResolverDefault {post : α → ParseState → α → ParseState → Prop} {f g : Bool → Parse α}
    (same : s.cursor = t.cursor) (h : ∀ here, Under depth cap cap' s t (f here) (g here) post) :
    Under depth cap cap' s t (atResolverDefault >>= f) (atResolverDefault >>= g) post := by
  rw [Parse.atResolverDefault, bind_assoc, bind_assoc, under_cursor, same]
  exact h _

/-- The same result, and the first of the errors. -/
def Same (cap : Nat) (a : α) (s : ParseState) (b : α) (t : ParseState) : Prop := a = b ∧ s = t.cut cap

/-- What does not depend on the errors before is the same under a lower limit. -/
theorem Impartial.under {p : Parse α} (h : Impartial p) (deep : 0 < depth) (le : cap ≤ cap') (t : ParseState) :
    Under depth cap cap' (t.cut cap) t p p (Same cap) := by
  obtain ⟨o, comes⟩ := h depth deep t.cursor t.nestingReported
  refine (comes cap (t.errors.take cap)).mono ?_
  rintro _ _ ⟨rfl, rfl⟩
  refine (comes cap' t.errors).mono ?_
  rintro _ _ ⟨rfl, rfl⟩
  refine ⟨rfl, ?_⟩
  have errors : t.errors.take cap ++ o.complaints.take (cap - (t.errors.take cap).length) =
      (t.errors ++ o.complaints.take (cap' - t.errors.length)).take cap := by
    have room : cap - (t.errors.take cap).length = min (cap - t.errors.length) (cap' - t.errors.length) := by
      rw [List.length_take]
      omega
    rw [List.take_append, List.take_take, room]
  rw [Outcome.state, Outcome.state, errors]
  rfl

/-! ## Where the lower limit has been come to -/

/-- There is no room for more errors under the lower limit, and those of `s` are the first ones of `t`. -/
structure CutShort (cap : Nat) (s t : ParseState) : Prop where
  full : cap ≤ s.errors.length
  first : s.errors = t.errors.take cap

theorem CutShort.of_full (full : cap ≤ t.errors.length) : CutShort cap (t.cut cap) t :=
  ⟨ParseState.le_length_cut.2 full, rfl⟩

/-- More errors behind change nothing. -/
theorem CutShort.behind {p : Parse α} (h : CutShort cap s t) (grows : Grows p) :
    Ensures ⟨depth, cap'⟩ t p fun _ u => CutShort cap s u := by
  refine (grows ⟨depth, cap'⟩ t).mono fun _ u more => ⟨h.full, ?_⟩
  obtain ⟨further, all⟩ := more.front
  have full := h.full
  rw [h.first, List.length_take] at full
  rw [h.first, ← all, List.take_append_of_le_length (by omega)]

theorem nextImport_nothing (other : s.cursor.atKeyword "import" = false) :
    Declines ⟨depth, cap⟩ s nextImport := by
  simp only [Declines, nextImport, ensures_bind, ensures_cursor, other, Bool.false_eq_true, if_false,
    ensures_pure, and_self]

theorem nextImport_nothing_of_full (full : cap ≤ s.errors.length) : Declines ⟨depth, cap⟩ s nextImport := by
  simp only [Declines, nextImport, ensures_bind, ensures_cursor]
  split
  · simp only [ensures_bind, ensures_errorsFull, full, decide_true, if_true, ensures_pure, and_self]
  · exact ⟨rfl, rfl⟩

theorem nextRule_nothing_of_full (full : cap ≤ s.errors.length) : Declines ⟨depth, cap⟩ s nextRule := by
  simp only [Declines, nextRule, ensures_bind, ensures_cursor, ensures_errorsFull, full, decide_true,
    Bool.or_true, if_true, ensures_pure, and_self]

/-! ## Repetition -/

/-- A round comes to the same, or the lower limit has been come to and the round is not made. -/
def RoundEnds (cap : Nat) (halts : Cursor → Prop) (a : Option α) (s : ParseState) (b : Option α)
    (t : ParseState) : Prop :=
  Same cap a s b t ∨ a = none ∧ CutShort cap s t ∧ halts s.cursor

/-- All rounds are the same, or the last of them are left out. -/
def RoundsEnd (cap : Nat) (halts : Cursor → Prop) (as : List α) (s : ParseState) (bs : List α)
    (t : ParseState) : Prop :=
  Same cap as s bs t ∨ as <+: bs ∧ CutShort cap s t ∧ halts s.cursor

theorem Under.manyFuel {step : Parse (Option α)} {halts : Cursor → Prop} (grows : Grows step)
    (h : ∀ t, Under depth cap cap' (t.cut cap) t step step (RoundEnds cap halts)) (n : Nat) (t : ParseState) :
    Under depth cap cap' (t.cut cap) t (manyFuel step n) (manyFuel step n) (RoundsEnd cap halts) := by
  induction n generalizing t with
  | zero => exact .inl ⟨rfl, rfl⟩
  | succ n ih =>
    refine (h t).bind ?_
    rintro a _ b u (⟨rfl, rfl⟩ | ⟨rfl, short, halted⟩)
    · cases a with
      | none => exact .inl ⟨rfl, rfl⟩
      | some item =>
        refine (ih u).bind ?_
        rintro items _ items' v (⟨rfl, rfl⟩ | ⟨first, short, halted⟩)
        · exact .inl ⟨rfl, rfl⟩
        · exact .inr ⟨(List.prefix_cons_inj item).2 first, short, halted⟩
    · refine Under.idle (a := []) ⟨rfl, rfl⟩ ?_
      exact (short.behind (grows.furtherRounds n b)).mono
        fun _ _ short => .inr (And.intro List.nil_prefix ⟨short, halted⟩)

theorem Under.many {step : Parse (Option α)} {halts : Cursor → Prop} (grows : Grows step)
    (h : ∀ t, Under depth cap cap' (t.cut cap) t step step (RoundEnds cap halts)) (t : ParseState) :
    Under depth cap cap' (t.cut cap) t (many step) (many step) (RoundsEnd cap halts) :=
  Under.manyFuel grows h _ t

/-! ## The sections of a document -/

/-- Behind a statement, the readings go on in the same way. -/
theorem leaving_under (m : Cursor → Cursor) (c : Prop) [Decidable c] (a : α) (t : ParseState) :
    Under depth cap cap' (t.cut cap) t
      (do
        if c then
          move m
        skipBlank
        return a)
      (do
        if c then
          move m
        skipBlank
        return a) (Same cap) := by
  split
  · exact ⟨rfl, rfl⟩
  · exact ⟨rfl, rfl⟩

/-- Where the lower limit has been come to, they may go on in different ways. -/
theorem leaving_cutShort (m : Cursor → Cursor) (c c' : Prop) [Decidable c] [Decidable c'] (a : α)
    (short : CutShort cap s t) : Under depth cap cap' s t
      (do
        if c then
          move m
        skipBlank
        return a)
      (do
        if c' then
          move m
        skipBlank
        return a) fun a s b t => a = b ∧ (s = t.cut cap ∨ CutShort cap s t) := by
  split <;> split
  all_goals exact ⟨rfl, .inr ⟨short.full, short.first⟩⟩

theorem versionSection_under (deep : 0 < depth) (le : cap ≤ cap') (t : ParseState) :
    Under depth cap cap' (t.cut cap) t versionSection versionSection (Same cap) := by
  rw [versionSection, under_cursor, ParseState.cursor_cut]
  split
  · refine (Impartial.under (versionStatement_contract (K := .impartial)) deep le t).bind ?_
    rintro node _ _ u ⟨rfl, rfl⟩
    exact ⟨rfl, rfl⟩
  · exact ⟨rfl, rfl⟩

/-- A statement behind which reading goes on elsewhere if it added errors. -/
theorem recovering_under {p : Parse Node} (impartial : Impartial p) (m : Cursor → Cursor) (f : Node → α)
    (deep : 0 < depth) (le : cap ≤ cap') (room : t.errors.length < cap) :
    Under depth cap cap' t t
      (do
        let before ← errorCount
        let node ← p
        if before < (← errorCount) then
          move m
        skipBlank
        return f node)
      (do
        let before ← errorCount
        let node ← p
        if before < (← errorCount) then
          move m
        skipBlank
        return f node) (Same cap) := by
  have node := impartial.under deep le t
  rw [ParseState.cut_of_room room] at node
  rw [under_errorCount]
  refine Under.bind node ?_
  rintro node _ _ u ⟨rfl, rfl⟩
  rw [under_errorCount]
  simp only [ParseState.lt_length_cut room]
  exact leaving_under m _ (f node) u

theorem nextImport_under (deep : 0 < depth) (le : cap ≤ cap') (t : ParseState) :
    Under depth cap cap' (t.cut cap) t nextImport nextImport
      (RoundEnds cap fun c => c.atKeyword "import" = true) := by
  by_cases here : t.cursor.atKeyword "import" = true
  · by_cases full : cap ≤ t.errors.length
    · refine Under.idle (nextImport_nothing_of_full (ParseState.le_length_cut.2 full)) ?_
      exact ((CutShort.of_full full).behind nextImport_carries.grows).mono
        fun _ _ short => .inr ⟨rfl, short, here⟩
    · have room : t.errors.length < cap := Nat.not_le.1 full
      have statement := recovering_under (importStatement_contract (K := .impartial)) Cursor.skipLine some
        deep le room
      have notFull : decide (cap ≤ t.errors.length) = false := decide_eq_false full
      have notFull' : decide (cap' ≤ t.errors.length) = false := decide_eq_false (by omega)
      rw [ParseState.cut_of_room room, nextImport, under_cursor, if_pos here, under_errorsFull, notFull,
        notFull', if_neg Bool.false_ne_true]
      exact statement.mono fun _ _ _ _ same => .inl same
  · rw [Bool.not_eq_true] at here
    refine Under.idle (nextImport_nothing here) ((nextImport_nothing here).mono ?_)
    rintro _ _ ⟨rfl, rfl⟩
    exact .inl ⟨rfl, rfl⟩

/-- The default resolver is read even where no more errors are recorded; reading then goes on behind it in
its own way. -/
theorem resolverSection_under (deep : 0 < depth) (le : cap ≤ cap') (t : ParseState) :
    Under depth cap cap' (t.cut cap) t resolverSection resolverSection
      fun a s b t => a = b ∧ (s = t.cut cap ∨ CutShort cap s t) := by
  refine Under.atResolverDefault rfl fun here => ?_
  split
  · by_cases full : cap ≤ t.errors.length
    · have grows : Ensures ⟨depth, cap'⟩ t resolverDefault fun _ u => cap ≤ u.errors.length :=
        (resolverDefault_carries.grows _ t).mono fun _ u more => Nat.le_trans full more.front.length_le
      have node : Under depth cap cap' (t.cut cap) t resolverDefault resolverDefault
          fun a s b u => Same cap a s b u ∧ cap ≤ u.errors.length :=
        ⟨Impartial.under (resolverDefault_contract (K := .impartial)) deep le t, grows⟩
      rw [under_errorCount]
      refine node.bind ?_
      rintro node _ _ u ⟨⟨rfl, rfl⟩, full⟩
      rw [under_errorCount]
      exact leaving_cutShort Cursor.synchronize _ _ [node] (.of_full full)
    · have room : t.errors.length < cap := Nat.not_le.1 full
      have statement := recovering_under (resolverDefault_contract (K := .impartial)) Cursor.synchronize
        (fun node => [node]) deep le room
      rw [ParseState.cut_of_room room]
      exact statement.mono fun _ _ _ _ same => ⟨same.1, .inl same.2⟩
  · exact ⟨rfl, .inl rfl⟩

theorem nextRule_under (deep : 0 < depth) (le : cap ≤ cap') (t : ParseState) :
    Under depth cap cap' (t.cut cap) t nextRule nextRule (RoundEnds cap fun _ => True) := by
  by_cases full : cap ≤ t.errors.length
  · refine Under.idle (nextRule_nothing_of_full (ParseState.le_length_cut.2 full)) ?_
    exact ((CutShort.of_full full).behind nextRule_carries.grows).mono
      fun _ _ short => .inr ⟨rfl, short, trivial⟩
  · have room : t.errors.length < cap := Nat.not_le.1 full
    have notFull : decide (cap ≤ t.errors.length) = false := decide_eq_false full
    have notFull' : decide (cap' ≤ t.errors.length) = false := decide_eq_false (by omega)
    have node := (ruleNode_impartial t.cursor).under deep le t
    rw [ParseState.cut_of_room room] at node ⊢
    rw [nextRule, under_cursor, under_errorsFull, notFull, notFull']
    split
    · exact .inl ⟨rfl, (ParseState.cut_of_room room).symm⟩
    · have rule : Under depth cap cap' t t rule rule (Same cap) := by
        rw [rule_eq, under_cursor, under_errorCount]
        refine Under.bind node ?_
        rintro (_ | ⟨node, complete⟩) _ _ u ⟨rfl, rfl⟩
        · exact ⟨rfl, rfl⟩
        · rw [under_errorCount]
          exact ⟨congrArg (fun clean => some (Rule.mk node (complete && clean)))
            (ParseState.length_cut_beq room), rfl⟩
      refine Under.bind rule ?_
      rintro (_ | rule) _ _ u ⟨rfl, rfl⟩
      · exact .inl ⟨rfl, rfl⟩
      · exact (leaving_under Cursor.synchronize _ (some rule.node) u).mono fun _ _ _ _ same => .inl same

/-! ## Documents -/

/-- The first of the statements, and the first of the errors. -/
def Truncates (cap : Nat) (as : List Node) (s : ParseState) (bs : List Node) (t : ParseState) : Prop :=
  as <+: bs ∧ s.errors = t.errors.take cap

theorem front_of_rulesFrom (limits : Limits) (s : ParseState) (front : List Node) :
    Ensures limits s (rulesFrom front) fun all _ => front <+: all :=
  List.prefix_append front _

theorem front_of_resolverFrom (limits : Limits) (s : ParseState) (front : List Node) :
    Ensures limits s (resolverFrom front) fun all _ => front <+: all :=
  (List.prefix_append front _).trans (front_of_rulesFrom limits _ _)

theorem rulesFrom_of_full (full : cap ≤ s.errors.length) (front : List Node) :
    Ensures ⟨depth, cap⟩ s (rulesFrom front) fun all s' => all = front ∧ s' = s := by
  have rules : Ensures ⟨depth, cap⟩ s (many nextRule) fun rules s' => rules = [] ∧ s' = s :=
    (nextRule_nothing_of_full full).manyFuel _
  refine rules.bind ?_
  rintro _ _ ⟨rfl, rfl⟩
  exact ⟨List.append_nil front, rfl⟩

/-- In front of an import there is no default resolver. -/
theorem resolverFrom_of_full (full : cap ≤ s.errors.length) (here : s.cursor.atKeyword "import" = true)
    (front : List Node) : Ensures ⟨depth, cap⟩ s (resolverFrom front) fun all s' => all = front ∧ s' = s := by
  have other : s.cursor.atKeyword "resolver" = false := by
    have word := (Cursor.checkWord_iff (by decide)).1 (Bool.and_eq_true_iff.1 here).1
    refine Cursor.not_atKeyword (by decide) (.inr ?_)
    rw [word]
    decide
  have resolver : Ensures ⟨depth, cap⟩ s resolverSection fun resolver s' => resolver = [] ∧ s' = s := by
    simp only [resolverSection, atResolverDefault, ensures_bind, ensures_cursor, other, ensures_pure,
      Bool.false_and, Bool.false_eq_true, if_false, and_self]
  refine resolver.bind ?_
  rintro _ _ ⟨rfl, rfl⟩
  rw [List.append_nil]
  exact rulesFrom_of_full full front

theorem rulesFrom_under_of_full (short : CutShort cap s t) {front front' : List Node} (first : front <+: front') :
    Under depth cap cap' s t (rulesFrom front) (rulesFrom front') (Truncates cap) := by
  refine Under.idle (rulesFrom_of_full short.full front) ?_
  refine ((short.behind (rulesFrom_grows front')).and (front_of_rulesFrom _ t front')).mono ?_
  rintro all u ⟨short, more⟩
  exact ⟨first.trans more, short.first⟩

theorem rulesFrom_under (deep : 0 < depth) (le : cap ≤ cap') (front : List Node) (t : ParseState) :
    Under depth cap cap' (t.cut cap) t (rulesFrom front) (rulesFrom front) (Truncates cap) := by
  refine (Under.many nextRule_carries.grows (nextRule_under deep le) t).bind ?_
  rintro rules _ rules' u (⟨rfl, rfl⟩ | ⟨first, short, -⟩)
  · exact ⟨List.prefix_rfl, rfl⟩
  · exact ⟨(List.prefix_append_right_inj front).2 first, short.first⟩

theorem resolverFrom_under (deep : 0 < depth) (le : cap ≤ cap') (front : List Node) (t : ParseState) :
    Under depth cap cap' (t.cut cap) t (resolverFrom front) (resolverFrom front) (Truncates cap) := by
  refine (resolverSection_under deep le t).bind ?_
  rintro resolver _ _ u ⟨rfl, rfl | short⟩
  · exact rulesFrom_under deep le _ u
  · exact rulesFrom_under_of_full short List.prefix_rfl

theorem importsFrom_under (deep : 0 < depth) (le : cap ≤ cap') (front : List Node) (t : ParseState) :
    Under depth cap cap' (t.cut cap) t (importsFrom front) (importsFrom front) (Truncates cap) := by
  refine (Under.many nextImport_carries.grows (nextImport_under deep le) t).bind ?_
  rintro imports s imports' u (⟨rfl, rfl⟩ | ⟨first, short, here⟩)
  · exact resolverFrom_under deep le _ u
  · refine Under.idle (resolverFrom_of_full short.full here _) ?_
    refine ((short.behind (resolverFrom_grows _)).and (front_of_resolverFrom _ u (front ++ imports'))).mono ?_
    rintro all v ⟨short, more⟩
    exact ⟨((List.prefix_append_right_inj front).2 first).trans more, short.first⟩

theorem statements_under (deep : 0 < depth) (le : cap ≤ cap') (t : ParseState) :
    Under depth cap cap' (t.cut cap) t statements statements (Truncates cap) := by
  have blank : Under depth cap cap' (t.cut cap) t skipBlank skipBlank (Same cap) := ⟨rfl, rfl⟩
  refine blank.bind ?_
  rintro _ _ _ u ⟨rfl, rfl⟩
  refine (versionSection_under deep le u).bind ?_
  rintro version _ _ v ⟨rfl, rfl⟩
  exact importsFrom_under deep le version v

end Parse

/-- Under a lower limit, a document has the first of the statements and the first of the errors. -/
theorem readWithin_truncates {depth cap cap' : Nat} (deep : 0 < depth) (le : cap ≤ cap') (text : List Char) :
    Parse.Truncates cap (readWithin ⟨depth, cap⟩ text).1.children (readWithin ⟨depth, cap⟩ text).2
      (readWithin ⟨depth, cap'⟩ text).1.children (readWithin ⟨depth, cap'⟩ text).2 := by
  have under := Parse.statements_under deep le ⟨.ofChars text, [], false⟩
  have start : ParseState.cut cap ⟨.ofChars text, [], false⟩ = ⟨.ofChars text, [], false⟩ := by
    rw [ParseState.cut, List.take_nil]
  obtain ⟨as, s, runs, children, state⟩ := readWithin_eq ⟨depth, cap⟩ text
  obtain ⟨bs, t, runs', children', state'⟩ := readWithin_eq ⟨depth, cap'⟩ text
  rw [start, Parse.Under, Parse.Ensures, runs, Parse.Ensures, runs'] at under
  rw [children, children', state, state']
  exact under

theorem length_errors_le {limits : Limits} (deep : 0 < limits.depth) (text : List Char) :
    (readWithin limits text).2.errors.length ≤ limits.errors := by
  obtain ⟨-, first⟩ := readWithin_truncates deep (Nat.le_refl limits.errors) text
  rw [first]
  exact List.length_take_le _ _

/-- **The limit on errors only cuts off.** Of two limits the lower one leaves the last errors out, and perhaps
the last statements; and no reading of a document records more errors than the limit. -/
theorem limit_truncates {cap cap' : Nat} (le : cap ≤ cap') (text : String) :
    (readWithin ⟨Limits.standard.depth, cap⟩ text.toList).2.errors =
        (readWithin ⟨Limits.standard.depth, cap'⟩ text.toList).2.errors.take cap ∧
      (readWithin ⟨Limits.standard.depth, cap⟩ text.toList).1.children <+:
        (readWithin ⟨Limits.standard.depth, cap'⟩ text.toList).1.children ∧
      (readDocument text).errors.length ≤ Limits.standard.errors := by
  have deep : 0 < Limits.standard.depth := by decide
  obtain ⟨children, errors⟩ := readWithin_truncates deep le text.toList
  refine ⟨errors, children, ?_⟩
  rw [errors_readDocument]
  exact length_errors_le deep text.toList

theorem limit_truncates_rules : 1 ≤ 3 ∧
    ((readWithin ⟨Limits.standard.depth, 1⟩ "a\nb = [c\nd = e".toList).2.errors =
        (readWithin ⟨Limits.standard.depth, 3⟩ "a\nb = [c\nd = e".toList).2.errors.take 1 ∧
      (readWithin ⟨Limits.standard.depth, 1⟩ "a\nb = [c\nd = e".toList).1.children <+:
        (readWithin ⟨Limits.standard.depth, 3⟩ "a\nb = [c\nd = e".toList).1.children ∧
      (readDocument "a\nb = [c\nd = e").errors.length ≤ Limits.standard.errors) ∧
    (readWithin ⟨Limits.standard.depth, 1⟩ "a\nb = [c\nd = e".toList).1.children.length = 1 ∧
    (readWithin ⟨Limits.standard.depth, 3⟩ "a\nb = [c\nd = e".toList).1.children.length = 3 :=
  ⟨by decide, limit_truncates (by decide) _, by decide +kernel, by decide +kernel⟩

end PatternRules

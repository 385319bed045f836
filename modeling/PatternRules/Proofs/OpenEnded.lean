import PatternRules.Proofs.Course.Document
import PatternRules.Proofs.RuleLine

/-!
The signs `+` and `*`, which do not belong to the grammar: reading stops in front of one without a complaint,
and the scan of the text is to report it. A document without complaints is read in pieces of the scan
(`readWithin_tiled`), so the two know the same of it up to where reading stops.

* `openEnded_hidden`: in a document that is read to its end no sign is reported, except on the line of a filter
  argument with two closing brackets, at which the scan takes the list match for closed;
* `stopping_sign_reported`: a sign at which reading stops is reported, if it stands right behind a character
  that may be repeated.
-/

namespace PatternRules

/-! ## What is known where reading stops -/

/-- Where reading a document stops. -/
def stopOf (text : String) : Cursor := (readWithin .standard text.toList).2.cursor

/-- What the scan has found in front of the place where reading stops. -/
theorem inStep_stopOf {text : String} (clean : (readDocument text).errors = []) :
    InStep (readDocument text).tree.HidesBracketsOn text.toList (stopOf text) := by
  have room : 0 < Limits.standard.errors := by decide
  rw [errors_readDocument] at clean
  rw [tree_readDocument, stopOf]
  exact (InStep.start _ _).run (readWithin_tiled room clean (notNested_of_clean room clean))

/-- **No sign is reported in a document that is read to its end without complaint**, unless a list match on its
line hides brackets. -/
theorem openEnded_hidden (text : String) (clean : Clean text) :
    ∀ d ∈ openEndedQuantifiers (scanText text.toList),
      (readDocument text).tree.HidesBracketsOn d.span.line := by
  intro d hd
  obtain ⟨n, line, found, place, signed⟩ := not_calm_of_openEnded hd
  have atEnd : (stopOf text).rest = [] := by
    rw [stopOf]
    exact clean.rest
  rw [place]
  exact ((inStep_stopOf clean.errors).calm atEnd found).resolve_right signed

/-- Signs in strings, in a class, in an escape and in a comment. Only the first string hides brackets. -/
def hiddenSigns : String := "r = [[a:f(\"x]]+\")]] # y+\ns = \"a+\" [b+*] \\+ [[c:g(\"d]+\")]]"

theorem openEnded_hidden_argument :
    Clean hiddenSigns ∧
      (openEndedQuantifiers (scanText hiddenSigns.toList)).map (·.span) = [⟨1, 15, 1⟩] ∧
      ∀ d ∈ openEndedQuantifiers (scanText hiddenSigns.toList),
        (readDocument hiddenSigns).tree.HidesBracketsOn d.span.line := by
  have clean : Clean hiddenSigns := by decide +kernel
  exact ⟨clean, by decide +kernel, openEnded_hidden _ clean⟩

/-! ## Signs at which reading stops -/

/-- What was read last stands in front of the cursor on its line. -/
theorem Cursor.getLast?_front {text front : List Char} {c : Cursor} {ch : Char}
    (reached : (Cursor.ofChars text).Reaches c) (more : c.rest ≠ [])
    (behind : (text.take c.pos).getLast? = some ch) (inLine : ch ≠ '\n')
    (found : (splitLines text)[c.line - 1]? = some (front ++ c.lineTail)) : front.getLast? = some ch := by
  obtain ⟨n, rfl⟩ := reached
  have bound : n < text.length := by simpa [Cursor.ofChars] using more
  have pos : ((Cursor.ofChars text).advanceBy n).pos = n := by
    rw [Cursor.pos_advanceBy]
    show 0 + min n text.length = n
    omega
  rw [pos] at behind
  obtain ⟨init, split⟩ := List.getLast?_eq_some_iff.1 behind
  have length : n = init.length + 1 := by
    have := congrArg List.length split
    simpa [Nat.min_eq_left (Nat.le_of_lt bound)] using this
  -- The place one character before.
  obtain ⟨d, hd⟩ : ∃ d, (Cursor.ofChars text).advanceBy init.length = d := ⟨_, rfl⟩
  have next : (Cursor.ofChars text).advanceBy n = d.advance := by
    rw [length, Cursor.advanceBy_add, hd]
    rfl
  have rest : d.rest = ch :: text.drop n := by
    rw [← hd, Cursor.rest_advanceBy]
    show text.drop init.length = _
    conv => lhs; rw [← List.take_append_drop n text, split]
    simp
  obtain ⟨front', found', -, -⟩ := Cursor.Reaches.line? (hd ▸ Cursor.reaches_advanceBy init.length _)
  have line : d.advance.line = d.line := by
    have := d.line_advanceBy 1
    rwa [rest, List.take_succ_cons, List.take_zero, List.count_eq_zero.2 (by simpa using inLine.symm)] at this
  have tail : d.lineTail = ch :: d.advance.lineTail := by
    simp [Cursor.lineTail, Cursor.run, rest, inLine]
  rw [next, line, found', tail, Option.some.injEq] at found
  have same : front' ++ [ch] ++ d.advance.lineTail = front ++ d.advance.lineTail := by simpa using found
  rw [← List.append_cancel_right same, List.getLast?_concat]

namespace Diagnostic

theorem mem_insertByPosition_of_mem {d e : Diagnostic} {ds : List Diagnostic} (h : e = d ∨ e ∈ ds) :
    e ∈ insertByPosition d ds := by
  induction ds with
  | nil => simpa [insertByPosition] using h
  | cons other rest ih =>
    rw [insertByPosition]
    split
    · simpa using h
    · rw [List.mem_cons] at h ⊢
      rcases h with same | first | later
      · exact .inr (ih (.inl same))
      · exact .inl first
      · exact .inr (ih (.inr later))

theorem mem_sortByPosition_of_mem {d : Diagnostic} {ds : List Diagnostic} (h : d ∈ ds) :
    d ∈ sortByPosition ds := by
  induction ds with
  | nil => exact h
  | cons other rest ih => exact mem_insertByPosition_of_mem ((List.mem_cons.1 h).imp_right ih)

/-- Of diagnostics that repeat each other one is kept. -/
theorem exists_mem_dropRepeats {d : Diagnostic} {ds : List Diagnostic} (h : d ∈ ds) :
    ∃ e ∈ dropRepeats ds, e.key = d.key := by
  induction ds with
  | nil => cases h
  | cons other rest ih =>
    by_cases same : d.key = other.key
    · exact ⟨other, List.mem_cons_self, same.symm⟩
    · rcases List.mem_cons.1 h with rfl | later
      · exact absurd rfl same
      · obtain ⟨e, mem, repeats⟩ := ih later
        refine ⟨e, List.mem_cons_of_mem _ (List.mem_filter.2 ⟨mem, ?_⟩), repeats⟩
        rw [repeats]
        exact bne_iff_ne.2 same

end Diagnostic

/-- What the validator finds it reports, at least once. -/
theorem exists_validate_of_mem_findings {config : Config} {place : Surroundings} {root : Node} {text : List Char}
    {d : Diagnostic} (h : d ∈ findings config place root text) :
    ∃ e ∈ validate config place root text, e.key = d.key := by
  unfold validate
  dsimp only
  split
  · obtain ⟨e, mem, repeats⟩ := Diagnostic.exists_mem_dropRepeats h
    exact ⟨e, Diagnostic.mem_sortByPosition_of_mem mem, repeats⟩
  · exact ⟨d, Diagnostic.mem_sortByPosition_of_mem h, rfl⟩

/-- What the scan finds is found by the validator, if it scans. -/
theorem exists_validate_of_openEnded {config : Config} (scans : config.scanText = true) (place : Surroundings)
    (root : Node) {text : List Char} {d : Diagnostic} (h : d ∈ openEndedQuantifiers (scanText text)) :
    ∃ e ∈ validate config place root text, e.key = d.key :=
  exists_validate_of_mem_findings (by simp [findings, scannedLines, scans, h])

/-- **A sign at which reading stops without complaint is reported**, if what stands right in front of it is a
character that may be repeated and no list match on its line hides brackets. -/
theorem stopping_sign_reported (place : Surroundings) (text : String) {before sign : Char}
    (clean : (readDocument text).errors = []) (here : (stopOf text).peek = some sign)
    (isSign : isSign sign = true) (behind : (text.toList.take (stopOf text).pos).getLast? = some before)
    (repeatable : isRepeatable before = true)
    (shown : ¬ (readDocument text).tree.HidesBracketsOn (stopOf text).line) :
    ∃ d ∈ validate .standard place (readDocument text).tree text.toList,
      d.code = .openEndedQuantifier ∧ d.span = ⟨(stopOf text).line, (stopOf text).column, 1⟩ := by
  have inStep := inStep_stopOf clean
  obtain ⟨front, regions, split⟩ := inStep.here.resolve_left shown
  have more : (stopOf text).rest ≠ [] := by
    intro none
    simp [Cursor.peek, none] at here
  have inLine : before ≠ '\n' := by
    rintro rfl
    have never : isRepeatable '\n' = false := by decide +kernel
    rw [never] at repeatable
    cases repeatable
  have last := Cursor.getLast?_front inStep.reached more behind inLine split.found
  obtain ⟨d, hd, code, span⟩ := split.openEnded inStep.reached last repeatable here isSign
  have standard : Config.standard.scanText = true := rfl
  obtain ⟨e, he, same⟩ := exists_validate_of_openEnded standard place (readDocument text).tree hd
  simp only [Diagnostic.key, Prod.mk.injEq] at same
  obtain ⟨spans, codes, -⟩ := same
  exact ⟨e, he, codes.trans code, spans.trans span⟩

/-- A sign right behind a class, in front of other signs. -/
def signBehindClass : String := "r = \"x+\" # y+\ns = a{2,3} | [+*]+ b* \"c"

theorem stopping_sign_reported_class :
    (readDocument signBehindClass).errors = [] ∧ (stopOf signBehindClass).peek = some '+' ∧
      ∃ d ∈ validate .standard ⟨fun _ => .missing, none⟩ (readDocument signBehindClass).tree
          signBehindClass.toList,
        d.code = .openEndedQuantifier ∧
          d.span = ⟨(stopOf signBehindClass).line, (stopOf signBehindClass).column, 1⟩ := by
  have clean : (readDocument signBehindClass).errors = [] := by decide +kernel
  have here : (stopOf signBehindClass).peek = some '+' := by decide +kernel
  have behind : (signBehindClass.toList.take (stopOf signBehindClass).pos).getLast? = some ']' := by
    decide +kernel
  refine ⟨clean, here, stopping_sign_reported _ _ clean here rfl behind (by decide +kernel) ?_⟩
  rintro ⟨n, mem, hides, -⟩
  have none : ∀ n ∈ (readDocument signBehindClass).tree.nodes, n.hidesBrackets = false := by decide +kernel
  rw [none n mem] at hides
  cases hides

/-- Whether reading stops without complaint at a sign, right behind the expression of the last rule. -/
def stopsBehindRule (text : String) : Bool :=
  (readDocument text).errors.isEmpty && (stopOf text).peek.any isSign &&
    (readDocument text).tree.children.getLast?.any fun rule =>
      rule.kind == .ruleDefinition && rule.children[1]?.any fun body =>
        (stopOf text).position == ⟨body.span.line, body.span.column + body.span.length⟩

/-- **Not every sign behind a rule is reported.** A quote is no character that may be repeated. -/
theorem not_all_stopping_signs_reported :
    ¬ ∀ (place : Surroundings) (text : String), stopsBehindRule text = true →
      ∃ d ∈ validate .standard place (readDocument text).tree text.toList,
        d.code = .openEndedQuantifier ∧ d.span.start = (stopOf text).position := by
  intro claim
  have stops : stopsBehindRule "r = \"x\"+" = true := by decide +kernel
  obtain ⟨d, mem, -⟩ := claim ⟨fun _ => .missing, none⟩ "r = \"x\"+" stops
  have nothing : validate .standard ⟨fun _ => .missing, none⟩ (readDocument "r = \"x\"+").tree
      "r = \"x\"+".toList = [] := by decide +kernel
  rw [nothing] at mem
  cases mem

end PatternRules

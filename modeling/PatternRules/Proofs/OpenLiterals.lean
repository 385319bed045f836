import PatternRules.Proofs.Contract.Document
import PatternRules.Proofs.FileViews
import PatternRules.Proofs.Merge
import PatternRules.Proofs.OpenEnded

/-!
String literals without an end, and the files they name. That a literal is unterminated is only recorded where
one is (`Contract.openLiterals`), and the span of the error cuts it out of the text. Whether a literal has both
its quotes is asked again before its file is looked for, but then of its first and last character only. The two
answers differ where the last character is an escaped quote (`Cursor.OpensLiteral.isClosedLiteral_iff`), and
only there the file is looked for (`openLiteral_lookedFor_iff`).
-/

namespace PatternRules

/-! ## Literals without an end -/

/-- A string literal begins at `c` and leaves off at `stop` without a closing quote. -/
structure Cursor.OpensLiteral (c stop : Cursor) : Prop where
  quote : c.peek = some '"'
  unclosed : (stringTail c.rest.tail).2 = false
  stop_eq : stop = c.advanceBy ((stringTail c.rest.tail).1 + 1)

theorem getLast?_cons_eq_some {c last : Char} {cs : List Char} (h : (c :: cs).getLast? = some last) :
    cs = [] ∧ c = last ∨ cs.getLast? = some last := by
  cases cs with
  | nil => exact .inl ⟨rfl, Option.some.inj h⟩
  | cons d ds => exact .inr (by rwa [List.getLast?_cons_cons] at h)

/-- What is left open may have a quote at its end, but only an escaped one. -/
theorem escaped_of_unclosed {cs : List Char} (unclosed : (stringTail cs).2 = false)
    (quote : (cs.take (stringTail cs).1).getLast? = some '"') :
    ['\\', '"'] <:+ cs.take (stringTail cs).1 := by
  fun_induction stringTail cs with
  | case1 => cases quote
  | case2 => cases quote
  | case3 cs => cases quote
  | case4 c cs _ n closed rest ih =>
    rw [rest] at ih
    simp only [List.take_succ_cons, List.getLast?_cons_cons] at quote ⊢
    rcases getLast?_cons_eq_some quote with ⟨nothing, rfl⟩ | quote
    · rw [nothing]
    · exact (ih unclosed quote).trans ((List.suffix_cons c _).trans (List.suffix_cons '\\' _))
  | case5 cs => cases unclosed
  | case6 c cs => cases quote
  | case7 c cs _ _ noQuote _ n closed rest ih =>
    rw [rest] at ih
    simp only [List.take_succ_cons] at quote ⊢
    rcases getLast?_cons_eq_some quote with ⟨-, isQuote⟩ | quote
    · exact absurd isQuote noQuote
    · exact (ih unclosed quote).trans (List.suffix_cons c _)

namespace Cursor.OpensLiteral

variable {c stop : Cursor}

theorem reaches (h : c.OpensLiteral stop) : c.Reaches stop := by
  rw [h.stop_eq]
  exact reaches_advanceBy _ c

theorem textSince (h : c.OpensLiteral stop) :
    stop.textSince c = '"' :: c.rest.tail.take (stringTail c.rest.tail).1 := by
  obtain ⟨rest, hrest⟩ : ∃ rest, c.rest = '"' :: rest := List.head?_eq_some_iff.1 h.quote
  rw [h.stop_eq, Parse.textSince_advanceBy, hrest, List.take_succ_cons, List.tail_cons]

theorem oneLine (h : c.OpensLiteral stop) : '\n' ∉ stop.textSince c := by
  rw [h.textSince, List.mem_cons, not_or]
  exact ⟨by decide, Parse.not_mem_take_stringTail _⟩

/-- **An open literal looks closed exactly if it ends with an escaped quote.** -/
theorem isClosedLiteral_iff (h : c.OpensLiteral stop) :
    isClosedLiteral (stop.textSince c) = true ↔ ['\\', '"'] <:+ stop.textSince c := by
  rw [h.textSince]
  constructor
  · intro closed
    simp only [isClosedLiteral, Bool.and_eq_true, decide_eq_true_eq, beq_iff_eq] at closed
    obtain ⟨⟨long, -⟩, last⟩ := closed
    rcases getLast?_cons_eq_some last with ⟨nothing, -⟩ | last
    · rw [nothing] at long
      cases long with
      | step long => cases long
    · exact (escaped_of_unclosed h.unclosed last).trans (List.suffix_cons '"' _)
  · rintro ⟨front, ends⟩
    rw [← ends, isClosedLiteral, Bool.and_eq_true, Bool.and_eq_true]
    cases front with
    | nil => cases ends
    | cons first front =>
      obtain ⟨rfl, -⟩ := List.cons.inj ends
      have last : '"' :: front ++ ['\\', '"'] = ('"' :: front ++ ['\\']) ++ ['"'] := by simp
      rw [last, List.getLast?_concat]
      simp

/-- The literal is what stands at the span of its error. -/
theorem source {text : List Char} (reached : (ofChars text).Reaches c) (h : c.OpensLiteral stop) :
    (stop.spanFrom c.mark).source? text = some (stop.textSince c) := by
  rw [source_spanFrom reached h.reaches, (take_spanFrom reached h.reaches).2.2 h.oneLine, List.take_length]

end Cursor.OpensLiteral

/-! ## Where they are reported -/

/-- The error is about the whole of a literal in the text that has no end. -/
def SyntaxError.AtOpenLiteral (text : List Char) (e : SyntaxError) : Prop :=
  ∃ c stop, (Cursor.ofChars text).Reaches c ∧ c.OpensLiteral stop ∧ e.span = stop.spanFrom c.mark

/-- That a literal has no end has only been recorded where one is. -/
structure ParseState.LiteralsOpen (text : List Char) (s : ParseState) : Prop where
  reached : (Cursor.ofChars text).Reaches s.cursor
  atOpenLiteral : ∀ e ∈ s.errors, e.message = Complaint.stringUnterminated.message → e.AtOpenLiteral text

namespace ParseState.LiteralsOpen

variable {text : List Char} {s : ParseState}

theorem move (h : s.LiteralsOpen text) {c : Cursor} (reaches : s.cursor.Reaches c) :
    LiteralsOpen text { s with cursor := c } :=
  ⟨h.reached.trans reaches, h.atOpenLiteral⟩

theorem recording (h : s.LiteralsOpen text) (limits : Limits) {e : SyntaxError}
    (known : e.message = Complaint.stringUnterminated.message → e.AtOpenLiteral text) :
    (s.recording limits e).LiteralsOpen text := by
  unfold ParseState.recording
  split
  · exact h
  · refine ⟨h.reached, fun e' mem => ?_⟩
    rcases List.mem_append.1 mem with old | new
    · exact h.atOpenLiteral e' old
    · rw [List.mem_singleton.1 new]
      exact known

/-- Any other complaint says nothing about literals. -/
theorem recordingPlain (h : s.LiteralsOpen text) (limits : Limits) {complaint : Complaint}
    (plain : complaint.isPlain = true) (span : Span) :
    (s.recording limits ⟨complaint.message, span⟩).LiteralsOpen text :=
  h.recording limits fun same => absurd same (Complaint.message_ne_of_isPlain plain rfl)

end ParseState.LiteralsOpen

namespace Parse

/-- As long as something may nest, `p` reads on in the text and reports no literal that is not open. -/
def ReportsOpen (text : List Char) {α : Type} (p : Parse α) : Prop :=
  ∀ limits s, 0 < limits.depth → s.LiteralsOpen text → Ensures limits s p fun _ t => t.LiteralsOpen text

namespace ReportsOpen

variable {text : List Char} {α β : Type}

theorem bind {p : Parse α} {f : α → Parse β} (h : ReportsOpen text p) (next : ∀ a, ReportsOpen text (f a)) :
    ReportsOpen text (p >>= f) :=
  fun limits s room before => (h limits s room before).bind fun a t => next a limits t room

theorem reportUnlessNested {complaint : Complaint} (plain : complaint.isPlain = true) :
    ReportsOpen text (reportUnlessNested complaint) := by
  intro limits s _ before
  simp only [Parse.reportUnlessNested, ensures_bind, ensures_get]
  split
  · simp only [reportHere, ensures_bind, ensures_cursor, ensures_report]
    exact before.recordingPlain limits plain _
  · exact before

theorem reportNesting : ReportsOpen text reportNesting := by
  intro limits s _ before
  simp only [Parse.reportNesting, ensures_bind, ensures_get]
  split
  · simp only [reportHere, ensures_bind, ensures_modify, ensures_read, ensures_cursor, ensures_report]
    have other : (Complaint.nestingTooDeep limits.depth).message ≠ Complaint.stringUnterminated.message :=
      Complaint.message_ne (by simp [Complaint.opening])
    exact ParseState.LiteralsOpen.recording (s := { s with nestingReported := true })
      ⟨before.reached, before.atOpenLiteral⟩ limits fun same => absurd same other
  · exact before

theorem string : ReportsOpen text string := by
  intro limits s _ before
  simp only [Parse.string, ensures_bind, ensures_cursor]
  split
  · next quote =>
    simp only [ensures_bind, ensures_move]
    have moved := before.move (Cursor.reaches_advanceBy ((stringTail s.cursor.rest.tail).1 + 1) s.cursor)
    split
    · next unclosed =>
      simp only [ensures_bind, ensures_spanFrom, ensures_report, ensures_textNodeFrom, ensures_pure]
      refine moved.recording limits fun _ => ⟨s.cursor, _, before.reached, ⟨quote, ?_, rfl⟩, rfl⟩
      simpa using unclosed
    · simp only [ensures_bind, ensures_textNodeFrom, ensures_pure]
      exact moved
  · exact before

theorem accept {match? : Cursor → Option Cursor} (h : ∀ c d, match? c = some d → c.Reaches d) :
    ReportsOpen text (accept match?) := by
  intro limits s _ before
  simp only [Parse.accept, ensures_bind, ensures_cursor]
  split
  · next d matched => exact before.move (h _ _ matched)
  · exact before

theorem afterBlank {p : Parse (Option α)} (h : ReportsOpen text p) : ReportsOpen text (afterBlank p) := by
  intro limits s room before
  simp only [Parse.afterBlank, ensures_bind, ensures_cursor, ensures_skipBlank]
  refine (h limits _ room (before.move (Cursor.reaches_skipBlank _))).mono ?_
  rintro (_ | a) t after
  · exact ⟨before.reached, after.atOpenLiteral⟩
  · exact after

end ReportsOpen

end Parse

/-- That a literal has no end is only recorded where one is. -/
def Contract.openLiterals (text : List Char) : Contract where
  keeps _ _ p := Parse.ReportsOpen text p
  mono _ h := h
  pure _ _ _ _ _ h := h
  bind h next := .bind h next
  look _ _ _ _ h := h
  start h limits s := h s.cursor limits s
  moveOn _ forward _ s _ before := before.move (forward s.cursor)
  spanFrom h limits s := h _ rfl limits s
  report _ _ plain _ limits s _ before := by
    rw [Parse.ensures_report]
    exact before.recordingPlain limits plain _
  reportUnlessNested _ plain := .reportUnlessNested plain
  string := .string
  tooDeep := .afterBlank (.bind .reportNesting fun _ _ _ _ h => h)
  accept := .accept
  eatChar _ yes no := .bind (.accept fun _ _ => Cursor.reaches_of_consume?) (Bool.rec no yes)
  afterBlank _ h nothing found := .bind (.afterBlank h) (Option.rec nothing found)
  depth h limits s room := by
    obtain ⟨n, hn⟩ := Nat.exists_eq_succ_of_ne_zero (Nat.pos_iff_ne_zero.1 room)
    rw [Parse.ensures_bind, Parse.ensures_read, hn]
    exact h n limits s room

theorem Contract.openLiterals_stageless (text : List Char) : (openLiterals text).Stageless where
  same h := h
  counting h limits s := h _ limits s
  asking h limits s := h _ limits s

/-- **That a literal is unterminated is only recorded where one is.** -/
theorem atOpenLiteral_of_mem_errors {text : String} {e : SyntaxError} (he : e ∈ (readDocument text).errors)
    (unterminated : e.message = Complaint.stringUnterminated.message) : e.AtOpenLiteral text.toList := by
  have start : ParseState.LiteralsOpen text.toList ⟨.ofChars text.toList, [], false⟩ := ⟨.refl _, by simp⟩
  have done : (readWithin .standard text.toList).2.LiteralsOpen text.toList :=
    Parse.document_contract (Contract.openLiterals_stageless text.toList) .standard _ (by decide) start
  rw [errors_readDocument] at he
  exact done.atOpenLiteral e he unterminated

/-! ## Files that are missing -/

namespace FileReference

variable {place : Surroundings} {r : FileReference}

theorem exists_missing?_iff :
    (∃ d, missing? place r = some d) ↔ r.isComplete = true ∧ place.status r.literal = .missing := by
  unfold missing? Surroundings.status
  cases place.resolve? r.literal with
  | none => simp
  | some path =>
    rw [Option.bind_eq_bind, Option.bind_some]
    split
    · next h => simpa using h
    · next h => simpa using h

/-- A file name in a text is all that its span covers. -/
theorem source_of_mem_inText {text : List Char} (h : r ∈ inText (scanText text)) :
    r.span.source? text = some r.literal.toList := by
  obtain ⟨scanned, mem, inThere⟩ := List.mem_flatMap.1 h
  have lies := inLine_liesIn mem inThere
  obtain ⟨line, found, cut⟩ := inText_cuts h
  rw [Span.source?, found]
  dsimp only
  rw [if_pos ⟨lies.line_pos, lies.column_pos, lies.within line found⟩, cut.length,
    ← List.prefix_iff_eq_take.1 cut.starts]

end FileReference

/-- A missing file is reported at a span exactly if a file name there has both its quotes and its file is
missing. -/
theorem missingFile_reported_iff (config : Config) (place : Surroundings) (root : Node) (text : List Char) (span : Span) :
    (∃ d ∈ validate config place root text, d.IsMissingFile ∧ d.span = span) ↔
      config.checkFiles = true ∧
        ∃ r ∈ FileReference.inTree root ++ FileReference.inText (scannedLines config text),
          r.span = span ∧ r.isComplete = true ∧ place.status r.literal = .missing := by
  constructor
  · rintro ⟨d, mem, about, rfl⟩
    have found := mem_findings_of_mem_validate mem
    simp only [findings, List.mem_append] at found
    rcases found with ((found | found) | found) | found
    · have code := code_of_mem_undefinedReferences found
      rcases about with about | about <;> cases code.symm.trans about
    · have code := code_of_mem_unboundedRanges found
      rcases about with about | about <;> cases code.symm.trans about
    · have code := code_of_mem_openEndedQuantifiers found
      rcases about with about | about <;> cases code.symm.trans about
    · unfold missingFiles at found
      split at found
      · next checks =>
        obtain ⟨r, hr, missing⟩ := List.mem_filterMap.1 found
        exact ⟨checks, r, hr, (FileReference.span_of_missing? missing).symm,
          FileReference.exists_missing?_iff.1 ⟨d, missing⟩⟩
      · cases found
  · rintro ⟨checks, r, hr, rfl, lookedFor⟩
    obtain ⟨d, missing⟩ := FileReference.exists_missing?_iff.2 lookedFor
    have found : d ∈ findings config place root text := by
      rw [findings, missingFiles, if_pos checks]
      exact List.mem_append_right _ (List.mem_filterMap.2 ⟨r, hr, missing⟩)
    obtain ⟨e, mem, same⟩ := exists_validate_of_mem_findings found
    simp only [Diagnostic.key, Prod.mk.injEq] at same
    obtain ⟨span, code, -⟩ := same
    refine ⟨e, mem, ?_, span.trans (FileReference.span_of_missing? missing)⟩
    rw [Diagnostic.IsMissingFile, code]
    exact FileReference.isMissingFile_of_missing? missing

/-- **The file of an unterminated literal is looked for exactly if the literal ends with an escaped quote.**
Where an error says that a literal has no end, a missing file is reported at its span if and only if the
literal ends so, files are checked, the file is missing and the literal stands where a file name does. -/
theorem openLiteral_lookedFor_iff {text : String} {e : SyntaxError} (he : e ∈ (readDocument text).errors)
    (unterminated : e.message = Complaint.stringUnterminated.message) (config : Config) (place : Surroundings) :
    ∃ literal : String, e.span.source? text.toList = some literal.toList ∧
      ((∃ d ∈ validate config place (readDocument text).tree text.toList, d.IsMissingFile ∧ d.span = e.span) ↔
        ['\\', '"'] <:+ literal.toList ∧ config.checkFiles = true ∧ place.status literal = .missing ∧
          ∃ r ∈ FileReference.inTree (readDocument text).tree ++
            FileReference.inText (scannedLines config text.toList), r.span = e.span) := by
  obtain ⟨c, stop, reached, opens, span⟩ := atOpenLiteral_of_mem_errors he unterminated
  have source : e.span.source? text.toList = some (stop.textSince c) := span ▸ opens.source reached
  -- Whatever names a file there names this one.
  have same {r : FileReference} (hr : r ∈ FileReference.inTree (readDocument text).tree ++
      FileReference.inText (scannedLines config text.toList)) (here : r.span = e.span) :
      r.literal = String.ofList (stop.textSince c) := by
    have cut : r.span.source? text.toList = some r.literal.toList := by
      rcases List.mem_append.1 hr with inTree | inText
      · exact (FileReference.inTree_cuts inTree).1
      · refine FileReference.source_of_mem_inText ?_
        unfold scannedLines at inText
        split at inText
        · exact inText
        · cases inText
    rw [here, source, Option.some.injEq] at cut
    rw [cut, String.ofList_toList]
  refine ⟨String.ofList (stop.textSince c), by rw [String.toList_ofList]; exact source, ?_⟩
  rw [missingFile_reported_iff, String.toList_ofList, ← opens.isClosedLiteral_iff]
  constructor
  · rintro ⟨checks, r, hr, here, complete, missing⟩
    rw [FileReference.isComplete, same hr here, String.toList_ofList] at complete
    exact ⟨complete, checks, same hr here ▸ missing, r, hr, here⟩
  · rintro ⟨closed, checks, missing, r, hr, here⟩
    refine ⟨checks, r, hr, here, ?_, same hr here ▸ missing⟩
    rw [FileReference.isComplete, same hr here, String.toList_ofList]
    exact closed

/-- The only quote behind the opening one is escaped. -/
def escapedEnd : String := "import \"a\\\""

theorem openLiteral_lookedFor_iff_import :
    ⟨"Unterminated string literal", ⟨1, 8, 4⟩⟩ ∈ (readDocument escapedEnd).errors ∧
      ∃ d ∈ validate .standard ⟨fun _ => .missing, some "rules"⟩ (readDocument escapedEnd).tree escapedEnd.toList,
        d.IsMissingFile ∧ d.span = ⟨1, 8, 4⟩ := by
  have recorded : ⟨"Unterminated string literal", ⟨1, 8, 4⟩⟩ ∈ (readDocument escapedEnd).errors := by
    decide +kernel
  have named : ⟨.importPath, "\"a\\\"", ⟨1, 8, 4⟩⟩ ∈ FileReference.inTree (readDocument escapedEnd).tree := by
    decide +kernel
  have source : (⟨1, 8, 4⟩ : Span).source? escapedEnd.toList = some "\"a\\\"".toList := by
    decide +kernel
  obtain ⟨literal, cut, reported⟩ := openLiteral_lookedFor_iff recorded rfl .standard
    ⟨fun _ => .missing, some "rules"⟩
  have same : literal.toList = "\"a\\\"".toList := Option.some.inj (cut.symm.trans source)
  refine ⟨recorded, reported.2 ⟨?_, rfl, rfl, _, List.mem_append_left _ named, rfl⟩⟩
  rw [same]
  decide

end PatternRules

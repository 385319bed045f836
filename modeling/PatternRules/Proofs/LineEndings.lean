import PatternRules.Proofs.Likeness.Document
import PatternRules.Proofs.Room
import PatternRules.Proofs.Spelling

/-!
What line ends mean to a reading. Carriage returns in front of the newlines change nothing
(`readDocument_withReturns`), and neither does a newline at the end of the text (`readDocument_finalNewline`), as
long as no error is about them. A class takes a carriage return for a member, and what is missing at the end of a
line is one character long if that is a carriage return (`SyntaxError.BeforeNewline`). Where something is sought
behind blanks and the text ends, the error is behind the blanks (`SyntaxError.SoughtAtEnd`).

Both are about spellings of a text (`Spelling.likeness`), read alike but for those errors
(`Spelling.same_reading`).
-/

namespace PatternRules

/-! ## Complaints about line ends -/

/-- The error is about a newline, or about something that is looked for in vain up to one. -/
inductive SyntaxError.BeforeNewline (text : List Char) (e : SyntaxError) : Prop
  /-- The newline comes next. -/
  | next {c : Cursor} (reached : (Cursor.ofChars text).Reaches c) (newline : c.peek = some '\n')
    (span : e.span = c.nextSpan)
  /-- A backslash in front of the newline leaves a string literal open. -/
  | string {c : Cursor} {rest : List Char} (reached : (Cursor.ofChars text).Reaches c)
    (here : c.rest = '"' :: rest) (escapes : Spelling.escapesNewline rest = true)
    (error : e = ⟨Complaint.stringUnterminated.message,
      (c.advanceBy ((stringTail rest).1 + 1)).spanFrom c.mark⟩)
  /-- A quantifier has no number, and no closing brace on its line. -/
  | quantifier {c : Cursor} (reached : (Cursor.ofChars text).Reaches c)
    (unclosed : '}' ∉ c.rest.takeWhile (· != '\n')) (newline : '\n' ∈ c.rest)
    (error : e = ⟨Complaint.quantifierNumberMissing.message, c.nextSpan⟩)
  /-- A list match is broken, and has no closing brackets on its line. -/
  | list {c : Cursor} {complaint : Complaint} (reached : (Cursor.ofChars text).Reaches c)
    (broken : complaint = .listNameMissing ∨ complaint = .listUnclosed)
    (unclosed : ¬ [']', ']'] <:+: c.rest.takeWhile (· != '\n')) (newline : '\n' ∈ c.rest)
    (error : e = ⟨complaint.message, c.nextSpan⟩)

/-- Errors at a newline are of length zero, and only a few are about things sought up to it. -/
theorem SyntaxError.BeforeNewline.nature {text : List Char} {e : SyntaxError} (h : e.BeforeNewline text) :
    e.span.length = 0 ∨ e.message = Complaint.stringUnterminated.message ∨
      e.message = Complaint.quantifierNumberMissing.message ∨ e.message = Complaint.listNameMissing.message ∨
      e.message = Complaint.listUnclosed.message := by
  cases h with
  | next _ newline span =>
    left
    rw [span, Cursor.nextSpan, newline]
    rfl
  | string _ _ _ error => exact .inr (.inl (congrArg message error))
  | quantifier _ _ _ error => exact .inr (.inr (.inl (congrArg message error)))
  | list _ broken _ _ error =>
    rcases broken with rfl | rfl
    · exact .inr (.inr (.inr (.inl (congrArg message error))))
    · exact .inr (.inr (.inr (.inr (congrArg message error))))

/-- The error is about something that is looked for behind blanks, and missing at the end of the text. -/
def SyntaxError.SoughtAtEnd (text : List Char) (e : SyntaxError) : Prop :=
  ∃ complaint : Complaint, ∃ c : Cursor, complaint.isSought = true ∧ (Cursor.ofChars text).Reaches c ∧
    c.rest = [] ∧ e = ⟨complaint.message, c.nextSpan⟩

theorem toList_prefix_append (a b c : String) : a.toList <+: (a ++ b ++ c).toList := by
  rw [String.toList_append, String.toList_append, List.append_assoc]
  exact List.prefix_append _ _

theorem Complaint.message_of_isSought {complaint : Complaint} (h : complaint.isSought = true) :
    complaint.message ∈ [argumentMissing.message, argumentValueMissing.message, tokensFileMissing.message] ∨
      "Expression nesting too deep (maximum depth is ".toList <+: complaint.message.toList := by
  cases complaint with
  | argumentMissing => exact .inl (by decide)
  | argumentValueMissing => exact .inl (by decide)
  | tokensFileMissing => exact .inl (by decide)
  | nestingTooDeep limit =>
    exact .inr (toList_prefix_append "Expression nesting too deep (maximum depth is " (toString limit) ")")
  | _ => cases h

/-! ## Texts with other line ends -/

/-- A text without carriage returns. -/
def withoutReturns (s : String) : String := String.ofList (s.toList.filter (· != '\r'))

namespace Node

mutual

theorem mapText_id : (n : Node) → mapText id n = n
  | ⟨kind, value, children, span⟩ => by
    have same : value.map (Value.mapText id) = value := by
      rcases value with _ | _ | _ <;> rfl
    rw [mapText, mapTextOf_id children, same]

theorem mapTextOf_id : (ns : List Node) → mapTextOf id ns = ns
  | [] => rfl
  | n :: ns => by rw [mapTextOf, mapText_id n, mapTextOf_id ns]

end

end Node

namespace Spelling

variable (S : Spelling) {text cs : List Char}

/-- What a text was before it was spelled so. -/
def read (s : String) : String := if S.before = [] then s else withoutReturns s

theorem filter_body (noReturn : '\r' ∉ cs) : (S.body cs).filter (· != '\r') = cs := by
  induction cs with
  | nil => rfl
  | cons c cs ih =>
    rw [List.mem_cons, not_or] at noReturn
    by_cases newline : c = '\n'
    · have none : S.before.filter (· != '\r') = [] :=
        S.of_before (P := fun before => before.filter (· != '\r') = []) rfl rfl
      rw [newline, body_newline, List.filter_append, none, List.filter_cons_of_pos rfl, ih noReturn.2]
      rfl
    · rw [body_cons S newline, List.filter_cons, if_pos (bne_iff_ne.2 (Ne.symm noReturn.1)), ih noReturn.2]

theorem read_body (noReturn : '\r' ∉ cs) : S.read (String.ofList (S.body cs)) = String.ofList cs := by
  by_cases h : S.before = []
  · rw [read, if_pos h, S.body_of_nothing h]
  · rw [read, if_neg h, withoutReturns, String.toList_ofList, S.filter_body noReturn]

section

variable {a c : Cursor}

theorem noReturn_rest (noReturn : '\r' ∉ text) (h : (Cursor.ofChars text).Reaches c) : '\r' ∉ c.rest := by
  obtain ⟨front, whole, -⟩ := exists_read h
  exact fun mem => noReturn (by rw [whole]; exact List.mem_append_right _ mem)

end

/-- A text reads like the same text with other line ends. -/
def likeness (text : List Char) (noReturn : '\r' ∉ text) : Likeness where
  view := S.read
  place c c' := (Cursor.ofChars text).Reaches c ∧ c' = S.cursor text c
  finished c c' := (Cursor.ofChars text).Reaches c ∧ c.rest = [] ∧ S.last = ['\n'] ∧
    c' = (S.cursor text c).advance
  tells e := S.before ≠ [] ∧ e.BeforeNewline text ∨ S.last ≠ [] ∧ e.SoughtAtEnd text
  position := by
    rintro c _ ⟨-, rfl⟩
    rfl
  sameLine := by
    rintro c _ ⟨reached, rfl⟩
    exact S.sameLine (noReturn_rest noReturn reached)
  noReturn := by
    rintro c _ ⟨reached, rfl⟩
    exact noReturn_rest noReturn reached
  length_le := by
    rintro c _ ⟨reached, rfl⟩
    show c.rest.length ≤ (S.body c.rest ++ S.last).length
    rw [List.length_append]
    exact Nat.le_add_right_of_le (S.length_le_body _)
  advance := by
    rintro c _ ch rest ⟨reached, rfl⟩ hrest inside
    refine ⟨reached.trans (Cursor.reaches_advance c), ?_⟩
    have other : ch ≠ '\n' := fun e => by rw [e] at inside; cases inside
    have there := S.cursor_advance reached hrest
    rwa [body_cons S other] at there
  everywhere := by
    rintro c _ ⟨reached, rfl⟩
    exact ⟨_, reached.trans (Cursor.reaches_advance c), rfl⟩
  spanFrom := by
    rintro a _ c _ ⟨begins, rfl⟩ ⟨reached, rfl⟩
    exact S.spanFrom_cursor noReturn begins reached
  text := by
    rintro a _ c _ ⟨begins, rfl⟩ ⟨reached, rfl⟩
    have part : '\r' ∉ c.textSince a := fun mem =>
      noReturn_rest noReturn begins (List.take_subset _ _ mem)
    rw [S.textSince_cursor begins reached, S.read_body part]
  skipBlank := by
    rintro c _ ⟨reached, rfl⟩
    have behind := reached.trans (Cursor.reaches_skipBlank c)
    refine (S.skipBlank_cursor reached).imp ?_ fun ⟨newline, atEnd, there⟩ => ⟨behind, atEnd, newline, there⟩
    rintro ⟨there, last⟩
    refine ⟨⟨behind, there⟩, fun atEnd => ?_⟩
    rw [there]
    show S.write c.skipBlank.rest = []
    rw [atEnd, write, last atEnd]
    rfl
  skipLine := by
    rintro c _ ⟨reached, rfl⟩
    have behind := reached.trans (Cursor.reaches_skipLine c)
    exact (S.skipLine_cursor reached).imp (fun there => ⟨behind, there⟩)
      fun ⟨newline, atEnd, there⟩ => ⟨behind, atEnd, newline, there⟩
  atEnd := by
    rintro c _ ⟨reached, atEnd, newline, rfl⟩
    refine ⟨atEnd, ?_⟩
    rw [Cursor.rest_advance]
    show (S.write c.rest).tail = []
    rw [atEnd, write, newline]
    rfl
  finished_spanFrom := by
    rintro a _ c _ ⟨begins, rfl⟩ ⟨reached, atEnd, newline, rfl⟩
    exact S.spanFrom_advance_cursor noReturn begins reached atEnd newline
  sought := by
    rintro c _ complaint ⟨reached, atEnd, newline, rfl⟩ isSought
    refine .inr ⟨?_, complaint, c, isSought, reached, atEnd, rfl⟩
    rw [newline]
    exact List.cons_ne_nil _ _
  lineEnd := by
    rintro c _ ⟨reached, rfl⟩ stop
    show Stops _ (S.write c.rest) ∨ _
    cases hrest : c.rest with
    | nil => exact .inl (S.stops_last rfl)
    | cons ch rest =>
      have newline : ch = '\n' := by
        have noReturn := noReturn_rest noReturn reached
        rw [hrest, List.mem_cons, not_or] at noReturn
        rw [hrest, Stops.cons_iff] at stop
        simpa [inLine, Ne.symm noReturn.1] using stop
      subst newline
      rcases S.before_eq with none | carriage
      · rw [write_newline, none]
        exact .inl (Stops.cons_iff.2 rfl)
      · refine .inr fun complaint => .inl ⟨?_, .next reached (by rw [Cursor.peek, hrest]; rfl) rfl⟩
        rw [carriage]
        exact List.cons_ne_nil _ _
  string := by
    rintro c _ rest rest' ⟨reached, rfl⟩ here there
    have noReturn := noReturn_rest noReturn reached
    rw [here, List.mem_cons, not_or] at noReturn
    have written : rest' = S.write rest := by
      have : S.write c.rest = '"' :: rest' := there
      rw [here, write_cons S (by decide)] at this
      exact (List.cons.inj this).2.symm
    rw [written]
    refine (S.stringTail_write noReturn.2).imp_right fun ⟨before, escapes⟩ => ?_
    exact ⟨escapesNewline_open escapes, .inl ⟨before, .string reached here escapes rfl⟩⟩
  brace := by
    rintro c _ ⟨reached, rfl⟩
    refine (S.untilBrace_write (noReturn_rest noReturn reached)).imp (fun same => ?_)
      fun ⟨before, unclosed, newline⟩ => .inl ⟨before, .quantifier reached unclosed newline rfl⟩
    refine ⟨reached.trans ⟨_, rfl⟩, ?_⟩
    rw [← S.cursor_inLine reached (untilBrace_le c.rest), ← same]
    rfl
  brackets := by
    rintro c _ complaint ⟨reached, rfl⟩ broken
    refine (S.untilBrackets_write (noReturn_rest noReturn reached)).imp (fun same => ?_)
      fun ⟨before, unclosed, newline⟩ => .inl ⟨before, .list reached broken unclosed newline rfl⟩
    refine ⟨reached.trans ⟨_, rfl⟩, ?_⟩
    rw [← S.cursor_inLine reached (untilBrackets_le c.rest), ← same]
    rfl

/-- Each newline comes behind a carriage return. -/
def carriageReturns : Spelling := ⟨['\r'], [], .inr rfl, .inl rfl⟩

/-- The text ends in a further newline. -/
def finalNewline : Spelling := ⟨[], ['\n'], .inl rfl, .inr rfl⟩

/-- A text and the same text with other line ends are read alike. -/
theorem same_reading (S : Spelling) (limits : Limits) {text : List Char} {cap : Nat} (noReturn : '\r' ∉ text)
    (room : (readWithin ⟨limits.depth, cap⟩ text).2.errors.length < cap)
    (quiet : ∀ e ∈ (readWithin ⟨limits.depth, cap⟩ text).2.errors,
      ¬ (S.before ≠ [] ∧ e.BeforeNewline text ∨ S.last ≠ [] ∧ e.SoughtAtEnd text)) :
    (readWithin limits text).1 = (readWithin limits (S.write text)).1.mapText S.read ∧
      (readWithin limits (S.write text)).2.errors = (readWithin limits text).2.errors :=
  (S.likeness text noReturn).same_reading ⟨.refl _, (S.cursor_ofChars text).symm⟩ room quiet

end Spelling

theorem readDocument_eq_iff {text text' : String} : readDocument text = readDocument text' ↔
    (readWithin .standard text.toList).1 = (readWithin .standard text'.toList).1 ∧
      (readWithin .standard text.toList).2.errors = (readWithin .standard text'.toList).2.errors := by
  rw [← tree_readDocument, ← tree_readDocument, ← errors_readDocument, ← errors_readDocument]
  generalize readDocument text = reading
  generalize readDocument text' = reading'
  cases reading
  cases reading'
  rw [Reading.mk.injEq]

/-- The text with a carriage return in front of each newline. -/
def withReturns (text : String) : String :=
  String.ofList (text.toList.flatMap fun c => if c = '\n' then ['\r', '\n'] else [c])

/-- **Carriage returns.** With a carriage return in front of each newline a text has the same errors, and
the same tree but for the carriage returns in its texts, unless an error is reported at a newline or is due to
one. -/
theorem readDocument_withReturns {text : String} (noReturn : '\r' ∉ text.toList)
    (quiet : ∀ e : SyntaxError, e.Concerns text.toList → ¬ e.BeforeNewline text.toList) :
    (readDocument text).tree = (readDocument (withReturns text)).tree.mapText withoutReturns ∧
      (readDocument (withReturns text)).errors = (readDocument text).errors := by
  have written : (withReturns text).toList = Spelling.carriageReturns.write text.toList := by
    rw [withReturns, String.toList_ofList]
    exact (List.append_nil _).symm
  have view : Spelling.carriageReturns.read = withoutReturns := rfl
  obtain ⟨cap, room⟩ := exists_room (show 0 < Limits.standard.depth by decide) text.toList
  have same := Spelling.carriageReturns.same_reading .standard noReturn room fun e he tells =>
    tells.elim (fun before => quiet e ⟨cap, he⟩ before.2) fun last => last.1 rfl
  rw [view, ← written] at same
  rw [tree_readDocument, tree_readDocument, errors_readDocument, errors_readDocument]
  exact same

/-- An error in front of a newline that is not about it. -/
theorem readDocument_withReturns_group :
    (readDocument "r = ()\nq = [^b]\n").tree =
        (readDocument (withReturns "r = ()\nq = [^b]\n")).tree.mapText withoutReturns ∧
      (readDocument (withReturns "r = ()\nq = [^b]\n")).errors = (readDocument "r = ()\nq = [^b]\n").errors := by
  have errors : (readWithin ⟨Limits.standard.depth, 2⟩ "r = ()\nq = [^b]\n".toList).2.errors =
      [⟨"Expected expression after '('", ⟨1, 6, 1⟩⟩] := by decide +kernel
  refine readDocument_withReturns (by decide) ?_
  rintro e ⟨cap, he⟩ about
  have he := errors_subset_of_room (by decide) (by rw [errors]; decide) cap he
  rw [errors, List.mem_singleton] at he
  rw [he] at about
  exact absurd about.nature (by decide)

/-- A class that is open at the end of its line goes on to the newline. -/
example : (readDocument "r = [a\n").errors.map SyntaxError.span = [⟨1, 7, 0⟩] ∧
    (readDocument (withReturns "r = [a\n")).errors.map SyntaxError.span = [⟨1, 8, 0⟩] := by decide +kernel

/-- **A final newline.** With a newline behind it a text has the same tree and the same errors, unless an error
is about something that is looked for behind blanks and missing at the end of the text. -/
theorem readDocument_finalNewline {text : String} (noReturn : '\r' ∉ text.toList)
    (quiet : ∀ e : SyntaxError, e.Concerns text.toList → ¬ e.SoughtAtEnd text.toList) :
    readDocument (text ++ "\n") = readDocument text := by
  have written : (text ++ "\n").toList = Spelling.finalNewline.write text.toList := by
    rw [String.toList_append, Spelling.write, Spelling.finalNewline.body_of_nothing rfl]
    rfl
  obtain ⟨cap, room⟩ := exists_room (show 0 < Limits.standard.depth by decide) text.toList
  have same := Spelling.finalNewline.same_reading .standard noReturn room fun e he tells =>
    tells.elim (fun before => before.1 rfl) fun last => quiet e ⟨cap, he⟩ last.2
  have view : Spelling.finalNewline.read = id := rfl
  rw [view, Node.mapText_id, ← written] at same
  exact readDocument_eq_iff.2 ⟨same.1.symm, same.2⟩

/-- An error at the end of the text that is not about something behind blanks. -/
theorem readDocument_finalNewline_group :
    (readDocument "r = (a").errors = [⟨"Expected closing parenthesis", ⟨1, 7, 0⟩⟩] ∧
      readDocument ("r = (a" ++ "\n") = readDocument "r = (a" := by
  have errors : (readWithin ⟨Limits.standard.depth, 2⟩ "r = (a".toList).2.errors =
      [⟨"Expected closing parenthesis", ⟨1, 7, 0⟩⟩] := by decide +kernel
  have room : (readWithin ⟨Limits.standard.depth, 2⟩ "r = (a".toList).2.errors.length < 2 := by
    rw [errors]
    decide
  refine ⟨by decide +kernel, readDocument_finalNewline (by decide) ?_⟩
  rintro e ⟨cap, he⟩ ⟨complaint, c, sought, -, -, about⟩
  have he := errors_subset_of_room (by decide) room cap he
  rw [errors, List.mem_singleton] at he
  rw [he] at about
  have message : complaint.message = "Expected closing parenthesis" := (congrArg SyntaxError.message about).symm
  have kinds := Complaint.message_of_isSought sought
  rw [message] at kinds
  exact absurd kinds (by decide)

/-- An argument is sought behind the newline. -/
example : (readDocument "r = a uses m(").errors.map SyntaxError.span = [⟨1, 14, 0⟩, ⟨1, 14, 0⟩] ∧
    (readDocument "r = a uses m(\n").errors.map SyntaxError.span = [⟨2, 1, 0⟩, ⟨2, 1, 0⟩] := by decide +kernel

end PatternRules

import PatternRules.Proofs.Course
import PatternRules.Proofs.Tiling
import PatternRules.Proofs.Twin.Expression

/-!
Reading an expression in the pieces of the scan. The course `tiles` leads from one place to another in pieces.
Escapes, strings, classes and list matches are a piece each. For the last two their text is followed up to its
end on a course of its own, on which the scan, too, counts character by character (`Course.counting`).

A list match with a filter whose argument has two closing brackets ends for the scan where these stand
(`Node.hidesBrackets`). The lines on which there are such list matches are set apart.
-/

namespace PatternRules

/-- Whether the node is a list match with a string in which two closing brackets stand. -/
def Node.hidesBrackets (n : Node) : Bool :=
  n.kind == .listMatch && (n.nodesOfKind .string).any fun argument =>
    argument.text?.any fun v => FileReference.occursIn [']', ']'] v.toList

/-- Whether on the line a list match of the tree hides brackets. -/
def Node.HidesBracketsOn (root : Node) (line : Nat) : Prop :=
  ∃ n ∈ root.nodes, n.hidesBrackets = true ∧ n.span.line = line

namespace Course

/-- Within a line, over text that is counted character by character. -/
def counting (count : List Char → Nat) (allows : Node → Prop) (plain : ∀ ch, ch ∉ marks → Over count [ch]) :
    Course where
  leads a b := ∃ text, '\n' ∉ text ∧ Over count text ∧ a.rest = text ++ b.rest ∧ b = a.advanceBy text.length
  allows := allows
  refl c := ⟨[], by simp, .nil count, rfl, rfl⟩
  trans := by
    rintro a b c ⟨text, inLine, counted, split, rfl⟩ ⟨more, inLine', counted', split', rfl⟩
    refine ⟨text ++ more, by simp [inLine, inLine'], counted.append counted', ?_, ?_⟩
    · rw [split, split', List.append_assoc]
    · rw [List.length_append, Cursor.advanceBy_add]
  plain := by
    intro c ch here noMark
    obtain ⟨rest, split⟩ : ∃ rest, c.rest = ch :: rest := List.head?_eq_some_iff.1 here
    have inLine : ch ≠ '\n' := by
      rintro rfl
      simp [marks] at noMark
    exact ⟨[ch], by simpa using inLine.symm, plain ch noMark, by simp [split], rfl⟩

theorem counting_take {count : List Char → Nat} {allows : Node → Prop}
    {plain : ∀ ch, ch ∉ marks → Over count [ch]} {c : Cursor} {n : Nat} (inLine : '\n' ∉ c.rest.take n)
    (counted : Over count (c.rest.take n)) (length : (c.rest.take n).length = n) :
    (counting count allows plain).leads c (c.advanceBy n) :=
  ⟨c.rest.take n, inLine, counted, by simp, by rw [length]⟩

/-- Between double brackets. -/
theorem counting_brackets {count : List Char → Nat} {allows : Node → Prop}
    {plain : ∀ ch, ch ∉ marks → Over count [ch]} {c d : Cursor} (opened : c.checkLiteral "[[" = true)
    (leads : (counting count allows plain).leads (c.advanceBy 2) d) (closed : d.checkLiteral "]]" = true) :
    ∃ text more, c.rest = '[' :: '[' :: (text ++ ']' :: ']' :: more) ∧ '\n' ∉ text ∧ Over count text ∧
      d.advanceBy 2 = c.advanceBy (text.length + 4) := by
  obtain ⟨inside, split⟩ : ['[', '['] <+: c.rest := List.isPrefixOf_iff_prefix.1 opened
  obtain ⟨more, split'⟩ : [']', ']'] <+: d.rest := List.isPrefixOf_iff_prefix.1 closed
  obtain ⟨text, inLine, counted, rest, rfl⟩ := leads
  refine ⟨text, more, ?_, inLine, counted, ?_⟩
  · rw [← split'] at rest
    simpa [← split] using rest
  · have sum : text.length + 4 = 2 + text.length + 2 := by omega
    rw [sum, Cursor.advanceBy_add, Cursor.advanceBy_add]

/-- Up to the end of a class. -/
def classes : Course :=
  counting (lengthToClose ']') (fun _ => True) fun ch noMark =>
    .toClose (by rintro rfl; simp [marks] at noMark) (by rintro rfl; simp [marks] at noMark)

/-- Up to the end of a list match, over strings without two closing brackets. -/
def lists : Course :=
  counting lengthToBrackets
    (fun n => n.kind = .string → n.text?.any (fun v => FileReference.occursIn [']', ']'] v.toList) = false)
    fun ch noMark => .toBrackets (by rintro rfl; simp [marks] at noMark)

/-- Within a line. -/
def lines : Course := counting List.length (fun _ => True) fun ch _ rest => by simp [Nat.add_comm]

/-! ## Pieces -/

end Course

theorem Cursor.lineTail_of_rest {c : Cursor} {ch : Char} {more : List Char} (h : c.rest = ch :: more)
    (inLine : ch ≠ '\n') : c.lineTail = ch :: more.takeWhile (· != '\n') := by
  simp [lineTail, run, h, inLine]

namespace Tiled

variable {apart : Nat → Prop} {c : Cursor} {ch : Char} {text more : List Char}

/-- One piece of known length. -/
theorem one {n : Nat} (h : c.rest = ch :: more) (inLine : ch ≠ '\n') (noSign : isSign ch = false)
    (length : (pieceRegions (ch :: more.takeWhile (· != '\n'))).length = n) :
    Tiled apart c (c.advanceBy n) := by
  have here : c.peek = some ch := by simp [Cursor.peek, h]
  refine .piece here inLine noSign ?_
  rw [Cursor.lineTail_of_rest h inLine, length]
  exact .refl _

theorem plain (here : c.peek = some ch) (noMark : ch ∉ marks) : Tiled apart c c.advance := by
  obtain ⟨more, split⟩ : ∃ more, c.rest = ch :: more := List.head?_eq_some_iff.1 here
  simp only [marks, List.mem_cons, List.not_mem_nil, or_false, not_or] at noMark
  obtain ⟨hash, backslash, quote, bracket, -, newline, plus, star⟩ := noMark
  exact .one (n := 1) split newline (by simp [isSign, plus, star])
    (by simp [pieceRegions, hash, backslash, quote, bracket])

theorem escape (h : c.rest = '\\' :: ch :: more) (inLine : ch ≠ '\n') : Tiled apart c (c.advanceBy 2) :=
  .one h (by decide) (by decide) (by simp [pieceRegions, inLine])

theorem string (here : c.peek = some '"') (closed : (stringTail c.rest.tail).2 = true) :
    Tiled apart c (c.advanceBy ((stringTail c.rest.tail).1 + 1)) := by
  obtain ⟨more, split⟩ : ∃ more, c.rest = '"' :: more := List.head?_eq_some_iff.1 here
  rw [split, List.tail_cons] at closed ⊢
  exact .one split (by decide) (by decide) (by simp [pieceRegions, lengthToClose_of_stringTail closed])

theorem takeWhile_of_inLine (inLine : '\n' ∉ text) (more : List Char) :
    (text ++ more).takeWhile (· != '\n') = text ++ more.takeWhile (· != '\n') := by
  refine List.takeWhile_append_of_pos ?_
  intro x hx
  have : x ≠ '\n' := fun e => inLine (e ▸ hx)
  simpa using this

/-- A class that does not look like a list match. -/
theorem charClass (h : c.rest = '[' :: (text ++ ']' :: more)) (inLine : '\n' ∉ text)
    (counted : Over (lengthToClose ']') text) (noList : (text ++ ']' :: more).head? ≠ some '[') :
    Tiled apart c (c.advanceBy (text.length + 2)) := by
  have tail : (text ++ ']' :: more).takeWhile (· != '\n') = text ++ ']' :: more.takeWhile (· != '\n') := by
    simp [takeWhile_of_inLine inLine]
  have noList' : (text ++ ']' :: more.takeWhile (· != '\n')).head? ≠ some '[' := by
    cases text <;> simp_all
  have piece (cs : List Char) (h : cs.head? ≠ some '[') :
      (pieceRegions ('[' :: cs)).length = lengthToClose ']' cs + 1 := by
    simp [pieceRegions, h]
  have length := counted (']' :: more.takeWhile (· != '\n'))
  rw [lengthToClose_cons (by decide), if_pos rfl] at length
  exact .one h (by decide) (by decide) (by rw [tail, piece _ noList', length])

/-- A list match whose text is counted character by character. -/
theorem list (h : c.rest = '[' :: '[' :: (text ++ ']' :: ']' :: more)) (inLine : '\n' ∉ text)
    (counted : Over lengthToBrackets text) : Tiled apart c (c.advanceBy (text.length + 4)) := by
  have tail : ('[' :: (text ++ ']' :: ']' :: more)).takeWhile (· != '\n') =
      '[' :: (text ++ ']' :: ']' :: more.takeWhile (· != '\n')) := by
    simp [takeWhile_of_inLine inLine]
  have length := counted (']' :: ']' :: more.takeWhile (· != '\n'))
  rw [lengthToBrackets] at length
  refine .one h (by decide) (by decide) ?_
  rw [tail]
  simp [pieceRegions, lengthToBrackets_cons, length]

/-- Blanks and comments. -/
theorem blank (c : Cursor) : Tiled apart c c.skipBlank := by
  -- Behind a comment the line ends, whatever place in the comment is looked at.
  have both (cs : List Char) : ∀ c : Cursor, c.rest = cs →
      Tiled apart c (c.advanceBy (blankRun false cs)) ∧
      Tiled apart (c.skipWhile (· != '\n')) (c.advanceBy (blankRun true cs)) := by
    induction cs with
    | nil =>
      intro c h
      refine ⟨.refl c, ?_⟩
      simp only [Cursor.skipWhile, Cursor.run, h]
      exact .refl c
    | cons ch cs ih =>
      intro c h
      have next : c.advance.rest = cs := by simp [h]
      have here : c.peek = some ch := by simp [Cursor.peek, h]
      obtain ⟨blanks, comment⟩ := ih c.advance next
      have onLine (other : ch ≠ '\n') : c.skipWhile (· != '\n') = c.advance.skipWhile (· != '\n') := by
        simp [Cursor.skipWhile, Cursor.run, h, other, Cursor.advanceBy]
      by_cases newline : ch = '\n'
      · subst newline
        have atEnd : c.skipWhile (· != '\n') = c := by
          simp [Cursor.skipWhile, Cursor.run, h, Cursor.advanceBy]
        rw [atEnd]
        exact ⟨.newline here blanks, .newline here blanks⟩
      · have inComment : blankRun true (ch :: cs) = blankRun true cs + 1 := by
          rw [blankRun, if_pos rfl, bne_iff_ne.2 newline]
        rw [inComment, onLine newline]
        refine ⟨?_, comment⟩
        simp only [blankRun, Bool.false_eq_true, if_false]
        split
        · next white =>
          have noMark : ch ∉ marks :=
            SparesMarks.not_mem (p := fun c => isBlank c && c != '\n') (by decide) (by simp [white, newline])
          exact (plain here noMark).trans blanks
        · split
          · next hash =>
            subst hash
            have toEnd : Tiled apart c (c.skipWhile (· != '\n')) :=
              .one h newline (by decide) (by simp [pieceRegions, Cursor.run, h])
            rw [onLine newline] at toEnd
            exact toEnd.trans comment
          · exact .refl c
  exact (both c.rest c rfl).1

end Tiled

/-- In pieces. A list match that hides brackets is on a line that is set apart. -/
def Course.tiles (apart : Nat → Prop) : Course where
  leads := Tiled apart
  allows n := n.hidesBrackets = true → apart n.span.line
  refl := .refl
  trans := .trans
  plain := .plain

namespace Parse

variable {K : Course} {limits : Limits} {s : ParseState} {apart : Nat → Prop}

/-! ## Escapes and strings -/

theorem escape_onCourse (escaped : ∀ {c : Cursor} {ch : Char} {more : List Char},
      c.rest = '\\' :: ch :: more → ch ≠ '\n' → K.leads c (c.advanceBy 2))
    (here : s.cursor.peek = some '\\') :
    Ensures limits s escape fun n t => K.Keeps limits s t [n] := by
  obtain ⟨more, split⟩ : ∃ more, s.cursor.rest = '\\' :: more := List.head?_eq_some_iff.1 here
  have incomplete (t : ParseState) : Ensures limits t (do
      report .escapeIncomplete (← spanFrom s.cursor)
      textNodeFrom .escape s.cursor []) fun n t => K.Keeps limits s t [n] := by
    simp only [ensures_bind, ensures_spanFrom]
    refine (report_loud _ _).mono ?_
    intro _ u loud
    rw [ensures_textNodeFrom]
    exact .loud loud
  simp only [escape, ensures_bind, ensures_cursor, ensures_move, ensures_peek]
  split
  · exact incomplete _
  · next ch next =>
    simp only [Cursor.peek, Cursor.rest_advance, split, List.tail_cons] at next
    obtain ⟨rest, rfl⟩ : ∃ rest, more = ch :: rest := List.head?_eq_some_iff.1 next
    split
    · exact incomplete _
    · next inLine =>
      simp only [ensures_bind, ensures_move, ensures_textNodeFrom]
      exact .moved (escaped split fun newline => inLine (.inl newline))

theorem string_tiles (apart : Nat → Prop) : OnCourse (.tiles apart) string :=
  string_onCourse fun _ _ here closed _ => .string here closed

/-- What is read of a closed string. -/
theorem closedString {c : Cursor} (here : c.peek = some '"') (closed : (stringTail c.rest.tail).2 = true) :
    '\n' ∉ c.rest.take ((stringTail c.rest.tail).1 + 1) ∧
      (c.rest.take ((stringTail c.rest.tail).1 + 1)).length = (stringTail c.rest.tail).1 + 1 ∧
      (c.rest.take ((stringTail c.rest.tail).1 + 1)).getLast? = some '"' := by
  obtain ⟨more, split⟩ : ∃ more, c.rest = '"' :: more := List.head?_eq_some_iff.1 here
  have closed' : (stringTail more).2 = true := by simpa [split] using closed
  have last := getLast?_take_stringTail closed'
  have length := length_stringTail_le more
  simp [split, not_mem_take_stringTail, List.getLast?_cons, last, length]

theorem string_lines : OnCourse .lines string := by
  refine string_onCourse fun c _ here closed _ => ?_
  obtain ⟨inLine, length, -⟩ := closedString here closed
  exact Course.counting_take inLine (fun rest => by simp) length

theorem string_lists : OnCourse .lists string := by
  refine string_onCourse fun c _ here closed allowed => ?_
  obtain ⟨inLine, length, last⟩ := closedString here closed
  refine Course.counting_take inLine (over_of_occursIn ?_ (by simp [last])) length
  simpa [Course.lists, Course.counting, Node.text?] using allowed

/-! ## Classes -/

theorem escape_classes (here : s.cursor.peek = some '\\') :
    Ensures limits s escape fun n t => Course.classes.Keeps limits s t [n] := by
  refine escape_onCourse ?_ here
  intro c ch more split inLine
  exact Course.counting_take (by simp [split, inLine.symm]) (by simpa [split] using Over.escaped ']' ch)
    (by simp [split])

theorem classChar_classes {c : Char} (here : s.cursor.peek = some c) (inLine : c ≠ '\n') (inClass : c ≠ ']') :
    Ensures limits s classChar fun n t => Course.classes.Keeps limits s t [n] := by
  obtain ⟨more, split⟩ : ∃ more, s.cursor.rest = c :: more := List.head?_eq_some_iff.1 here
  rw [ensures_classChar here]
  split
  · next backslash => exact escape_classes (backslash ▸ here)
  · next other =>
    exact takeLeaf_keeps _ (Course.counting_take (by simpa [split] using inLine.symm)
      (by simpa [split] using Over.toClose other inClass) (by simp [split]))

theorem classItem_classes {c : Char} (here : s.cursor.peek = some c) (inLine : c ≠ '\n') (inClass : c ≠ ']') :
    Ensures limits s classItem fun n t => Course.classes.Keeps limits s t [n] := by
  simp only [classItem, ensures_bind, ensures_cursor]
  refine (classChar_classes here inLine inClass).mono ?_
  intro low t hlow
  simp only [atRangeHyphen, ensures_bind, ensures_cursor, ensures_pure]
  split
  · next range =>
    obtain ⟨first, d, next, inClass, inLine⟩ := range_of_hyphen range
    simp only [ensures_bind, ensures_move]
    refine (classChar_classes next inLine inClass).mono ?_
    intro high u hhigh
    rw [ensures_textNodeFrom]
    exact ((hlow.upTo (.moved (Course.plain _ first (by decide)))).trans hhigh).node
  · exact hlow

/-- A class goes on, or it ends with a bracket. -/
theorem nextClassItem_classes : Ensures limits s nextClassItem fun r t => r.elim
    (t.Quiet limits → s.Quiet limits ∧ s.cursor.peek = some ']' ∧ t.cursor = s.cursor.advance)
    fun _ => Course.classes.Keeps limits s t [] := by
  simp only [nextClassItem, ensures_bind, ensures_peek]
  split
  · exact (reportHere_loud _).bind fun _ _ loud quiet => absurd quiet loud
  · next c here =>
    split
    · exact (reportHere_loud _).bind fun _ _ loud quiet => absurd quiet loud
    · next inLine =>
      split
      · next bracket =>
        intro quiet
        exact ⟨⟨quiet.room, quiet.errors, quiet.nested⟩, bracket ▸ here, rfl⟩
      · next inClass =>
        refine (classItem_classes here inLine inClass).bind ?_
        intro n t kept _
        exact kept fun _ _ => trivial

/-- The members of a class lead to its closing bracket. -/
theorem classItems_classes {fuel : Nat} (enough : s.cursor.rest.length < fuel) :
    Ensures limits s (manyFuel nextClassItem fuel) fun _ t => t.Quiet limits → s.Quiet limits ∧
      ∃ d, Course.classes.leads s.cursor d ∧ d.peek = some ']' ∧ t.cursor = d.advance := by
  induction fuel generalizing s with
  | zero => omega
  | succ fuel ih =>
    simp only [manyFuel, ensures_bind]
    refine (nextClassItem_classes.and (nextClassItem_consumes limits s)).mono ?_
    rintro (_ | n) t ⟨kept, shorter⟩
    · intro quiet
      obtain ⟨quiet, here, next⟩ := kept quiet
      exact ⟨quiet, s.cursor, Course.classes.refl _, here, next⟩
    · have less := shorter rfl
      refine (ih (s := t) (by omega)).bind ?_
      intro ns u further quiet
      obtain ⟨quiet, d, leads, here, next⟩ := further quiet
      obtain ⟨quiet, before⟩ := kept (by simp [Node.nodesOf]) quiet
      exact ⟨quiet, d, Course.classes.trans before leads, here, next⟩

/-- A class is a piece of the scan. -/
theorem charClass_tiles (here : s.cursor.peek = some '[') (noList : s.cursor.checkLiteral "[[" = false) :
    Ensures limits s charClass fun n t => (Course.tiles apart).Keeps limits s t [n] := by
  obtain ⟨more, split⟩ : ∃ more, s.cursor.rest = '[' :: more := List.head?_eq_some_iff.1 here
  simp only [charClass, many, ensures_bind, ensures_cursor, ensures_move]
  refine (classItems_classes (Nat.lt_succ_self _)).mono ?_
  intro items t ends
  rw [ensures_textNodeFrom]
  intro _ quiet
  obtain ⟨quiet, d, ⟨text, inLine, counted, rest, rfl⟩, bracket, next⟩ := ends quiet
  obtain ⟨further, behind⟩ := List.head?_eq_some_iff.1 bracket
  have whole : s.cursor.rest = '[' :: (text ++ ']' :: further) := by
    rw [behind] at rest
    simpa [split] using rest
  have other : (text ++ ']' :: further).head? ≠ some '[' := by
    intro opened
    obtain ⟨again, same⟩ := List.head?_eq_some_iff.1 opened
    simp [Cursor.checkLiteral, whole, same, List.isPrefixOf] at noList
  refine ⟨⟨quiet.room, quiet.errors, quiet.nested⟩, ?_⟩
  have stop : t.cursor = s.cursor.advanceBy (text.length + 2) := by
    have sum : text.length + 2 = 1 + text.length + 1 := by omega
    rw [next, sum, Cursor.advanceBy_add, Cursor.advanceBy_add]
    rfl
  rw [stop]
  exact .charClass whole inLine counted other

/-! ## List matches -/

/-- A list match that is complete. On any course that strings keep to, its text leads to the closing
brackets. -/
theorem listMatch_content (string : OnCourse K string) : Ensures limits s listMatch fun n t =>
    t.Quiet limits → ∃ ns u, n = .branch .listMatch ns (t.cursor.spanFrom s.cursor.mark) ∧
      K.Keeps limits { s with cursor := s.cursor.advanceBy 2 } u ns ∧ u.Quiet limits ∧
      u.cursor.checkLiteral "]]" = true ∧ t.cursor = u.cursor.advanceBy 2 := by
  simp only [listMatch, ensures_bind, ensures_cursor, ensures_move, ensures_skipInlineBlank]
  refine ((identifier_onCourse K).orReport _ limits _).mono ?_
  rintro (_ | name) t hname
  · simp only [ensures_bind, skipListMatch, ensures_move, ensures_branchFrom]
    intro quiet
    exact absurd ⟨quiet.room, quiet.errors, quiet.nested⟩ hname
  · simp only [ensures_bind, ensures_skipInlineBlank]
    refine (listFilter_onCourse string limits _).mono ?_
    intro filter u hfilter
    rw [HasNodes.nodes_list] at hfilter
    have parts : K.Keeps limits { s with cursor := s.cursor.advanceBy 2 } u (name :: filter) :=
      Course.Keeps.inline.after ((Course.Keeps.upTo hname .inline).trans hfilter)
    simp only [eatLiteral, accept, ensures_bind, ensures_cursor, Cursor.consumeLiteral?]
    split
    · next d hd =>
      split at hd
      · next closing =>
        cases hd
        simp only [ensures_bind, moveTo, ensures_modify, ensures_pure]
        intro quiet
        exact ⟨_, u, rfl, parts, ⟨quiet.room, quiet.errors, quiet.nested⟩, closing, rfl⟩
      · cases hd
    · simp only [ensures_pure, Bool.not_false, if_true, ensures_bind]
      refine (reportHere_loud _).mono ?_
      intro _ v loud
      simp only [skipListMatch, ensures_move, ensures_branchFrom]
      intro quiet
      exact absurd ⟨quiet.room, quiet.errors, quiet.nested⟩ loud

/-- A list match is a piece of the scan, unless it hides brackets. -/
theorem listMatch_tiles (here : s.cursor.checkLiteral "[[" = true) :
    Ensures limits s listMatch fun n t => (Course.tiles apart).Keeps limits s t [n] := by
  refine ((listMatch_content string_lists).and (listMatch_content string_lines)).mono ?_
  rintro n t ⟨inList, inLine⟩ allowed quiet
  by_cases hides : n.hidesBrackets = true
  · obtain ⟨ns, u, rfl, kept, quiet, closed, next⟩ := inLine quiet
    obtain ⟨quiet, leads⟩ := kept (fun _ _ => trivial) quiet
    obtain ⟨text, more, whole, noNewline, -, stop⟩ := Course.counting_brackets here leads closed
    rw [Node.nodesOf_singleton] at allowed
    have line : apart s.cursor.line := allowed _ List.mem_cons_self hides
    refine ⟨⟨quiet.room, quiet.errors, quiet.nested⟩, ?_⟩
    rw [next, stop]
    refine .apart line ?_ (.refl _)
    simp [whole, List.take_append, List.take_of_length_le (Nat.le_add_right text.length 2), noNewline]
  · obtain ⟨ns, u, rfl, kept, quiet, closed, next⟩ := inList quiet
    have plain : ∀ n ∈ Node.nodesOf ns, Course.lists.allows n := by
      intro n hn isString
      rw [← Bool.not_eq_true]
      intro brackets
      refine hides ?_
      have argument : n ∈ (Node.branch .listMatch ns (t.cursor.spanFrom s.cursor.mark)).nodesOfKind .string :=
        List.mem_filter.2 ⟨List.mem_cons_of_mem _ hn, beq_iff_eq.2 isString⟩
      exact Bool.and_eq_true_iff.2 ⟨rfl, List.any_eq_true.2 ⟨n, argument, brackets⟩⟩
    obtain ⟨quiet, leads⟩ := kept plain quiet
    obtain ⟨text, more, whole, noNewline, counted, stop⟩ := Course.counting_brackets here leads closed
    refine ⟨⟨quiet.room, quiet.errors, quiet.nested⟩, ?_⟩
    rw [next, stop]
    exact .list whole noNewline counted

/-! ## Behind blanks -/

section

variable {α : Type} [HasNodes α]

theorem OnCourse.afterBlank {p : Parse (Option α)} (h : OnCourse (.tiles apart) p) :
    OnCourse (.tiles apart) (afterBlank p) := by
  intro limits s
  simp only [Parse.afterBlank, ensures_bind, ensures_cursor, ensures_skipBlank]
  have blank (ns : List Node) :
      (Course.tiles apart).Keeps limits s { s with cursor := s.cursor.skipBlank } ns := .moved (.blank _)
  refine (h limits _).mono ?_
  rintro (_ | a) t kept
  · exact ((blank []).after kept).back
  · exact (blank []).after kept

theorem OnCourse.isSome {p : Parse (Option Unit)} (h : OnCourse K p) : OnCourse K (return (← p).isSome) := by
  intro limits s
  simp only [ensures_bind]
  refine (h limits s).mono ?_
  rintro (_ | _) t kept
  · exact kept
  · exact kept

theorem OnCourse.found {p : Parse Bool} (h : OnCourse K p) : OnCourse K (found p) := by
  intro limits s
  simp only [Parse.found, ensures_bind]
  refine (h limits s).mono ?_
  rintro (_ | _) t kept
  · exact kept
  · exact kept

theorem eatCharAfterBlank_tiles (apart : Nat → Prop) {c : Char} (plain : c ∉ marks) :
    OnCourse (.tiles apart) (eatCharAfterBlank c) :=
  (eatChar_onCourse _ plain).found.afterBlank.isSome

theorem eatWordAfterBlank_tiles (apart : Nat → Prop) {word : String} (plain : Unmarked word.toList) :
    OnCourse (.tiles apart) (eatWordAfterBlank word) :=
  (eatWord_onCourse _ plain).found.afterBlank.isSome

theorem OnCourse.commaList {item : Parse (Option α)} (h : OnCourse (.tiles apart) item) :
    OnCourse (.tiles apart) (commaList item) := by
  have next : OnCourse (.tiles apart) (do if ← eatCharAfterBlank ',' then item else return none) := by
    intro limits s
    simp only [ensures_bind]
    refine (eatCharAfterBlank_tiles apart (by decide) limits s).mono ?_
    intro comma t ht
    split
    · refine (h limits t).mono ?_
      intro r u kept
      exact ht.after kept
    · exact ht
  intro limits s
  simp only [Parse.commaList, ensures_bind]
  refine (h limits s).mono ?_
  rintro (_ | a) t kept
  · exact kept
  · refine (next.many limits t).bind ?_
    intro as u further
    exact kept.trans further

end

/-! ## Atoms -/

theorem atom_tiles (noList : s.cursor.checkLiteral "[[" = false) :
    Ensures limits s atom fun r t => (Course.tiles apart).Keeps limits s t (HasNodes.nodes r) := by
  simp only [atom, ensures_bind, ensures_peek]
  split
  · exact .refl s []
  · next c here =>
    have one (noMark : c ∉ marks) : (Course.tiles apart).leads s.cursor (s.cursor.advanceBy 1) :=
      .plain here noMark
    split
    · next backslash =>
      exact (escape_onCourse Tiled.escape (backslash ▸ here)).bind fun _ _ kept => kept
    · split
      · next anchor =>
        exact (takeLeaf_keeps _ (one (by rcases anchor with rfl | rfl <;> decide))).bind fun _ _ kept => kept
      · split
        · next dot => exact (takeLeaf_keeps _ (one (by rw [dot]; decide))).bind fun _ _ kept => kept
        · split
          · next bracket => exact (charClass_tiles (bracket ▸ here) noList).bind fun _ _ kept => kept
          · split
            · exact string_tiles apart limits s
            · exact identifier_onCourse _ limits s

/-! ## Groups and captures -/

theorem reportUnlessNested_loud (complaint : Complaint) :
    Ensures limits s (reportUnlessNested complaint) fun _ t => ¬ t.Quiet limits := by
  simp only [reportUnlessNested, ensures_bind, ensures_get]
  split
  · exact reportHere_loud complaint
  · next nested =>
    rw [ensures_pure]
    intro quiet
    have := quiet.nested
    simp [this] at nested

section

variable {inner : Parse (Option Node)}

theorem enclosed_tiles (missing : Complaint) (h : OnCourse (.tiles apart) inner) :
    OnCourse (.tiles apart) (enclosed missing inner) := by
  intro limits s
  simp only [enclosed, ensures_bind]
  refine (h.afterBlank limits s).mono ?_
  intro body t hbody
  refine .complaint (.tiles apart) (reportUnlessNested_loud _) ?_
  intro u hu
  refine (eatCharAfterBlank_tiles apart (by decide) limits u).bind ?_
  intro closed v hv
  refine .complaint (.tiles apart) (reportUnlessNested_loud _) ?_
  intro w hw
  rw [ensures_pure, HasNodes.nodes_list, ← HasNodes.nodes_option]
  exact hbody.upTo (hu.upTo (hv.upTo hw))

theorem group_tiles (h : OnCourse (.tiles apart) inner) (here : s.cursor.peek = some '(') :
    Ensures limits s (group inner) fun n t => (Course.tiles apart).Keeps limits s t [n] := by
  simp only [group, ensures_bind, ensures_cursor, ensures_move]
  refine (enclosed_tiles _ h limits _).mono ?_
  intro body t hbody
  rw [HasNodes.nodes_list] at hbody
  rw [ensures_branchFrom]
  exact ((Course.Keeps.moved (Course.plain _ here (by decide))).after hbody).node

theorem captureParts_tiles (h : OnCourse (.tiles apart) inner) :
    OnCourse (.tiles apart) (captureParts inner) := by
  intro limits s
  simp only [captureParts, ensures_bind]
  refine ((identifier_onCourse (.tiles apart)).orReport _ limits s).mono ?_
  rintro (_ | name) t hname
  · exact .loud hname
  · simp only [ensures_bind]
    refine (eatChar_onCourse (.tiles apart) (by decide) limits t).mono ?_
    intro closed u hu
    split
    · refine (enclosed_tiles _ h limits u).bind ?_
      intro body v hbody
      rw [HasNodes.nodes_list] at hbody
      rw [ensures_pure, HasNodes.nodes_list]
      exact Course.Keeps.trans hname (hu.after hbody)
    · exact (reportHere_loud _).bind fun _ _ loud => .loud loud

theorem namedCapture_tiles (h : OnCourse (.tiles apart) inner) (here : s.cursor.checkLiteral "(?P<" = true) :
    Ensures limits s (namedCapture inner) fun n t => (Course.tiles apart).Keeps limits s t [n] := by
  simp only [namedCapture, ensures_bind, ensures_cursor, ensures_move]
  refine (captureParts_tiles h limits _).mono ?_
  intro parts t hparts
  rw [HasNodes.nodes_list] at hparts
  rw [ensures_branchFrom]
  exact ((Course.Keeps.moved (Course.overLiteral _ here (by decide))).after hparts).node

end

/-! ## Quantifiers -/

theorem quantifierBounds_tiles (start : Cursor) {least : Node} {t : ParseState}
    (hleast : (Course.tiles apart).Keeps limits s t [least]) :
    Ensures limits t (quantifierBounds start least) fun n u => (Course.tiles apart).Keeps limits s u [n] := by
  -- Both forms of the bounds end in the same way.
  have closing (kind : Kind) (most : List Node) (u : ParseState)
      (hmost : (Course.tiles apart).Keeps limits s u (least :: most)) :
      Ensures limits u (do
        skipInlineBlank
        if !(← eatChar '}') then
          reportHere .quantifierUnclosed
        branchFrom kind start (least :: most)) fun n u => (Course.tiles apart).Keeps limits s u [n] := by
    simp only [ensures_bind, ensures_skipInlineBlank]
    refine (eatChar_onCourse (.tiles apart) (by decide) limits _).mono ?_
    intro closed v hv
    refine .complaint (.tiles apart) (reportHere_loud _) ?_
    intro w hw
    rw [ensures_branchFrom]
    exact (hmost.upTo (Course.Keeps.inline.upTo (hv.upTo hw))).node
  simp only [quantifierBounds, ensures_bind, ensures_skipInlineBlank]
  refine (eatChar_onCourse (.tiles apart) (by decide) limits _).mono ?_
  intro comma u hu
  have before := hleast.upTo (Course.Keeps.inline.upTo hu)
  split
  · simp only [ensures_bind, ensures_skipInlineBlank]
    refine (number_onCourse (.tiles apart) limits _).mono ?_
    intro most v hmost
    rw [HasNodes.nodes_option] at hmost
    exact closing .range most.toList v (before.trans (Course.Keeps.inline.after hmost))
  · exact closing .exactRange [] u before

theorem quantifier_tiles (apart : Nat → Prop) : OnCourse (.tiles apart) quantifier := by
  intro limits s
  simp only [quantifier, ensures_bind, ensures_cursor]
  refine (eatChar_onCourse (.tiles apart) (by decide) limits s).mono ?_
  intro question t ht
  split
  · exact ht.node
  · simp only [ensures_bind]
    refine (eatChar_onCourse (.tiles apart) (by decide) limits t).mono ?_
    intro brace u hu
    split
    · simp only [ensures_bind, ensures_skipInlineBlank]
      have before := ht.upTo (hu.upTo .inline)
      refine (number_onCourse (.tiles apart) limits _).mono ?_
      rintro (_ | least) v hleast
      · refine (reportHere_loud _).bind ?_
        intro _ w loud
        simp only [ensures_bind, ensures_move, ensures_pure]
        exact .loud fun quiet => loud ⟨quiet.room, quiet.errors, quiet.nested⟩
      · exact (quantifierBounds_tiles s.cursor (before.after hleast)).bind fun _ _ kept => kept
    · exact ht.upTo hu

/-! ## Expressions -/

section

variable {inner : Parse (Option Node)}

theorem primary_tiles (h : OnCourse (.tiles apart) inner) : OnCourse (.tiles apart) (primary inner) := by
  intro limits s
  simp only [primary, ensures_bind, ensures_cursor]
  split
  · next capture => exact (namedCapture_tiles h capture).bind fun _ _ kept => kept
  · split
    · next paren => exact (group_tiles h paren).bind fun _ _ kept => kept
    · split
      · next list => exact (listMatch_tiles list).bind fun _ _ kept => kept
      · next noList => exact atom_tiles (by simpa using noList)

theorem quantified_tiles (h : OnCourse (.tiles apart) inner) : OnCourse (.tiles apart) (quantified inner) := by
  intro limits s
  simp only [quantified, ensures_bind, ensures_cursor]
  refine (primary_tiles h limits s).mono ?_
  rintro (_ | subject) t hsubject
  · exact hsubject
  · refine (quantifier_tiles apart limits t).bind ?_
    rintro (_ | quantifier) u hquantifier
    · exact Course.Keeps.upTo hsubject hquantifier
    · exact (Course.Keeps.trans hsubject hquantifier).node

theorem item_tiles (h : OnCourse (.tiles apart) inner) : OnCourse (.tiles apart) (item inner) := by
  intro limits s
  simp only [item, atBoundary, ensures_bind, ensures_cursor, ensures_pure]
  split
  · exact .refl s []
  · exact quantified_tiles h limits s

theorem joined_keeps_course {t : ParseState} {first : Node} {further : List Node} (kind : Kind) (start : Cursor)
    (h : K.Keeps limits s t (first :: further)) :
    Ensures limits t (joined kind start first further) fun r u => K.Keeps limits s u (HasNodes.nodes r) := by
  unfold joined
  split
  · next alone =>
    rw [List.isEmpty_iff] at alone
    rw [alone] at h
    exact h
  · exact h.node

theorem concatenation_tiles (h : OnCourse (.tiles apart) inner) :
    OnCourse (.tiles apart) (concatenation inner) := by
  intro limits s
  simp only [concatenation, ensures_bind, ensures_cursor]
  refine (item_tiles h limits s).mono ?_
  rintro (_ | first) t hfirst
  · exact hfirst
  · refine ((item_tiles h).afterBlank.many limits t).bind ?_
    intro further u hfurther
    rw [HasNodes.nodes_list] at hfurther
    exact joined_keeps_course _ _ (Course.Keeps.trans hfirst hfurther)

theorem nextBranch_tiles (h : OnCourse (.tiles apart) inner) : OnCourse (.tiles apart) (nextBranch inner) := by
  intro limits s
  simp only [nextBranch, ensures_bind]
  refine (eatCharAfterBlank_tiles apart (by decide) limits s).mono ?_
  intro bar t ht
  split
  · refine (((concatenation_tiles h).afterBlank.orReport _).onCourse limits t).mono ?_
    intro branch u kept
    exact ht.after kept
  · exact ht

theorem alternation_tiles (h : OnCourse (.tiles apart) inner) :
    OnCourse (.tiles apart) (alternation inner) := by
  intro limits s
  simp only [alternation, ensures_bind, ensures_cursor]
  refine (concatenation_tiles h limits s).mono ?_
  rintro (_ | first) t hfirst
  · exact hfirst
  · refine ((nextBranch_tiles h).many limits t).bind ?_
    intro further u hfurther
    rw [HasNodes.nodes_list] at hfurther
    exact joined_keeps_course _ _ (Course.Keeps.trans hfirst hfurther)

end

theorem reportNesting_loud : Ensures limits s reportNesting fun _ t => ¬ t.Quiet limits := by
  simp only [reportNesting, ensures_bind, ensures_get]
  split
  · simp only [ensures_bind, ensures_modify, ensures_read]
    exact reportHere_loud _
  · next nested =>
    rw [ensures_pure]
    intro quiet
    have := quiet.nested
    simp [this] at nested

/-- **An expression is read in pieces of the scan**, however deep it goes. -/
theorem expressionWithin_tiles (levels : Nat) : OnCourse (.tiles apart) (expressionWithin levels) := by
  induction levels with
  | zero =>
    intro limits s
    exact reportNesting_loud.bind fun _ _ loud => .loud loud
  | succ levels ih => exact alternation_tiles ih

theorem expression_tiles (apart : Nat → Prop) : OnCourse (.tiles apart) expression := by
  intro limits s
  simp only [expression, ensures_bind, ensures_read]
  exact expressionWithin_tiles limits.depth limits s

end Parse

end PatternRules

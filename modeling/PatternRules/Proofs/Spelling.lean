import PatternRules.Proofs.Likeness

/-!
Texts with other line ends. A `Spelling` writes something in front of each newline, and something behind the text.
Places in the text are places in the text so written (`Spelling.cursor`), at the same line and column.

* `cursor_advanceBy`, `textSince_cursor`, `spanFrom_cursor`: going on, texts and spans;
* `skipBlank_cursor`, `skipLine_cursor`: blanks and lines end at the same places, or the text ends there and the
  newline behind it is skipped as well;
* `stringTail_write`, `untilBrace_write`, `untilBrackets_write`: what looks for its end sees the same, unless it
  comes to a newline.
-/

namespace PatternRules

/-- A way to end lines: what is written in front of each newline, and what is written behind the text. -/
structure Spelling where
  before : List Char
  last : List Char
  before_eq : before = [] ∨ before = ['\r']
  last_eq : last = [] ∨ last = ['\n']

namespace Spelling

variable (S : Spelling) {cs : List Char} {c : Char}

/-- The characters of a text, with what is in front of its newlines. -/
def body (cs : List Char) : List Char := cs.flatMap fun c => if c = '\n' then S.before ++ ['\n'] else [c]

/-- A text spelled so. -/
def write (cs : List Char) : List Char := S.body cs ++ S.last

theorem body_cons (h : c ≠ '\n') (cs : List Char) : S.body (c :: cs) = c :: S.body cs := by
  rw [body, List.flatMap_cons, if_neg h]
  rfl

theorem body_newline (cs : List Char) : S.body ('\n' :: cs) = S.before ++ '\n' :: S.body cs := by
  rw [body, List.flatMap_cons, if_pos rfl, List.append_assoc]
  rfl

theorem body_append (front back : List Char) : S.body (front ++ back) = S.body front ++ S.body back :=
  List.flatMap_append

theorem write_cons (h : c ≠ '\n') (cs : List Char) : S.write (c :: cs) = c :: S.write cs := by
  rw [write, body_cons S h]
  rfl

theorem write_newline (cs : List Char) : S.write ('\n' :: cs) = S.before ++ '\n' :: S.write cs := by
  rw [write, body_newline, List.append_assoc]
  rfl

theorem write_append (front back : List Char) : S.write (front ++ back) = S.body front ++ S.write back := by
  rw [write, body_append, List.append_assoc]
  rfl

/-- Without newlines a text is spelled as it is. -/
theorem body_of_line (h : '\n' ∉ cs) : S.body cs = cs := by
  induction cs with
  | nil => rfl
  | cons c cs ih =>
    rw [List.mem_cons, not_or] at h
    rw [body_cons S (Ne.symm h.1), ih h.2]

theorem body_of_nothing (h : S.before = []) (cs : List Char) : S.body cs = cs := by
  induction cs with
  | nil => rfl
  | cons c cs ih =>
    by_cases newline : c = '\n'
    · rw [newline, body_newline, h, ih]
      rfl
    · rw [body_cons S newline, ih]

theorem length_le_body (cs : List Char) : cs.length ≤ (S.body cs).length := by
  induction cs with
  | nil => exact Nat.le_refl 0
  | cons c cs ih =>
    by_cases h : c = '\n'
    · rw [h, body_newline, List.length_append, List.length_cons, List.length_cons]
      omega
    · rw [body_cons S h]
      exact Nat.succ_le_succ ih

/-! ## Line ends -/

theorem of_before {P : List Char → Prop} (none : P []) (carriage : P ['\r']) : P S.before := by
  rcases S.before_eq with h | h
  · rwa [h]
  · rwa [h]

theorem of_last {P : List Char → Prop} (none : P []) (newline : P ['\n']) : P S.last := by
  rcases S.last_eq with h | h
  · rwa [h]
  · rwa [h]

theorem newline_not_mem_before : '\n' ∉ S.before :=
  S.of_before (P := ('\n' ∉ ·)) List.not_mem_nil (by decide)

theorem stops_before {p : Char → Bool} (carriage : p '\r' = false) (newline : p '\n' = false)
    (tail : List Char) : Stops p (S.before ++ '\n' :: tail) :=
  S.of_before (P := fun before => Stops p (before ++ '\n' :: tail)) (Stops.cons_iff.2 newline)
    (Stops.cons_iff.2 carriage)

theorem stops_last {p : Char → Bool} (newline : p '\n' = false) : Stops p S.last :=
  S.of_last .nil (Stops.cons_iff.2 newline)

theorem sameLine (noReturn : '\r' ∉ cs) : SameLine cs (S.write cs) := by
  induction cs with
  | nil => exact .ends .nil (S.stops_last rfl)
  | cons c cs ih =>
    rw [List.mem_cons, not_or] at noReturn
    by_cases h : c = '\n'
    · rw [h, write_newline]
      exact .ends (Stops.cons_iff.2 rfl) (S.stops_before rfl rfl _)
    · rw [write_cons S h]
      refine .next ?_ (ih noReturn.2)
      simp [inLine, h, Ne.symm noReturn.1]

theorem splitLines_cons (h : c ≠ '\n') (cs : List Char) : ∃ line lines, splitLines cs = line :: lines ∧
    splitLines (c :: cs) = (c :: line) :: lines := by
  obtain ⟨line, lines, split⟩ := List.exists_cons_of_ne_nil (splitLines_ne_nil cs)
  exact ⟨line, lines, split, by rw [splitLines, if_neg h, split]⟩

/-- The lines end where they did. -/
theorem lineEndColumns_write {text : List Char} (noReturn : '\r' ∉ text) {i : Nat}
    (line : i < (lineEndColumns text).length) :
    (lineEndColumns (S.write text))[i]? = (lineEndColumns text)[i]? := by
  induction text generalizing i with
  | nil =>
    have first : i = 0 := Nat.lt_one_iff.1 line
    subst first
    rw [write, body, List.flatMap_nil, List.nil_append]
    exact S.of_last (P := fun last => (lineEndColumns last)[0]? = (lineEndColumns [])[0]?) rfl rfl
  | cons c text ih =>
    rw [List.mem_cons, not_or] at noReturn
    by_cases h : c = '\n'
    · have split : splitLines (c :: text) = [] :: splitLines text := by rw [splitLines, if_pos h]
      rw [lineEndColumns, split] at line
      rw [h, write_newline, lineEndColumns, lineEndColumns, splitLines_append_newline S.newline_not_mem_before,
        ← h, split]
      cases i with
      | zero =>
        rcases S.before_eq with none | carriage
        · rw [none]
          rfl
        · rw [carriage]
          rfl
      | succ i => exact ih noReturn.2 (Nat.lt_of_succ_lt_succ line)
    · obtain ⟨first, lines, split, split'⟩ := splitLines_cons h text
      obtain ⟨first', lines', written, written'⟩ := splitLines_cons h (S.write text)
      have longer (line : List Char) : ((c :: line).takeWhile (· != '\r')).length =
          (line.takeWhile (· != '\r')).length + 1 := by
        rw [List.takeWhile_cons, if_pos (bne_iff_ne.2 (Ne.symm noReturn.1)), List.length_cons]
      rw [lineEndColumns, split'] at line
      have inner := ih noReturn.2 (i := i) (by rw [lineEndColumns, split]; exact line)
      rw [lineEndColumns, lineEndColumns, written, split] at inner
      rw [write_cons S h, lineEndColumns, lineEndColumns, written', split']
      cases i with
      | zero =>
        simp only [List.map_cons, List.getElem?_cons_zero, longer, Option.some.injEq] at inner ⊢
        rw [inner]
      | succ i => exact inner

/-! ## Scanning -/

theorem blankRun_newline (inComment : Bool) (cs : List Char) :
    blankRun inComment ('\n' :: cs) = blankRun false cs + 1 := by
  cases inComment <;> rfl

theorem blankRun_carriage (inComment : Bool) (cs : List Char) :
    blankRun inComment ('\r' :: cs) = blankRun inComment cs + 1 := by
  cases inComment <;> rfl

/-- A character is blank, or the blanks end in front of it, whatever stands behind it. -/
theorem blankRun_cons (inComment : Bool) (c : Char) :
    (∃ inComment', ∀ cs, blankRun inComment (c :: cs) = blankRun inComment' cs + 1) ∨
      ∀ cs, blankRun inComment (c :: cs) = 0 := by
  by_cases comment : inComment = true
  · exact .inl ⟨c != '\n', fun cs => by rw [blankRun, if_pos comment]⟩
  · by_cases blank : isBlank c = true
    · exact .inl ⟨false, fun cs => by rw [blankRun, if_neg comment, if_pos blank]⟩
    · by_cases hash : c = '#'
      · exact .inl ⟨true, fun cs => by rw [blankRun, if_neg comment, if_neg blank, if_pos hash]⟩
      · exact .inr fun cs => by rw [blankRun, if_neg comment, if_neg blank, if_neg hash]

/-- Blanks are blanks, up to the end of the text. -/
theorem blankRun_write (inComment : Bool) (cs : List Char) :
    blankRun inComment (S.write cs) = (S.body (cs.take (blankRun inComment cs))).length +
      if blankRun inComment cs = cs.length then S.last.length else 0 := by
  induction cs generalizing inComment with
  | nil =>
    show blankRun inComment S.last = 0 + S.last.length
    exact S.of_last (P := fun last => blankRun inComment last = 0 + last.length) rfl
      (blankRun_newline inComment [])
  | cons c cs ih =>
    by_cases h : c = '\n'
    · have there (tail : List Char) : blankRun inComment (S.before ++ '\n' :: tail) =
          S.before.length + 1 + blankRun false tail := by
        rcases S.before_eq with none | carriage
        · rw [none, List.nil_append, blankRun_newline]
          exact Nat.add_comm _ _
        · rw [carriage, List.singleton_append, blankRun_carriage, blankRun_newline, List.length_singleton]
          exact Nat.add_comm _ 2
      rw [h, write_newline, there, ih, blankRun_newline, List.take_succ_cons, body_newline,
        List.length_append, List.length_cons, List.length_cons]
      simp only [Nat.add_right_cancel_iff]
      omega
    · rw [write_cons S h]
      rcases blankRun_cons inComment c with ⟨inComment', goesOn⟩ | stops
      · rw [goesOn, goesOn, ih, List.take_succ_cons, body_cons S h, List.length_cons, List.length_cons]
        simp only [Nat.add_right_cancel_iff]
        omega
      · rw [stops, stops, List.take_zero, List.length_cons, if_neg (Nat.succ_ne_zero _).symm]
        rfl

/-- Whether a backslash in front of a newline leaves a string literal open. -/
def escapesNewline : List Char → Bool
  | [] => false
  | ['\\'] => false
  | '\\' :: c :: cs => if c = '\n' then true else escapesNewline cs
  | c :: cs => if c = '"' then false else if c = '\n' ∨ c = '\r' then false else escapesNewline cs

theorem escapesNewline_cons (backslash : c ≠ '\\') (quote : c ≠ '"') (line : inLine c = true)
    (cs : List Char) : escapesNewline (c :: cs) = escapesNewline cs := by
  simp only [inLine, Bool.and_eq_true, bne_iff_ne] at line
  have other : ¬ (c = '\n' ∨ c = '\r') := not_or.2 line
  cases cs <;> simp [escapesNewline, backslash, quote, other]

/-- What is neither a last backslash nor one with a character behind it is no backslash. -/
theorem ne_backslash (single : c = '\\' → cs = [] → False)
    (pair : ∀ d ds, c = '\\' → cs = d :: ds → False) : c ≠ '\\' := fun e => by
  cases cs with
  | nil => exact single e rfl
  | cons d ds => exact pair d ds e rfl

theorem stringTail_cons (backslash : c ≠ '\\') (quote : c ≠ '"') (line : inLine c = true) (cs : List Char) :
    stringTail (c :: cs) = ((stringTail cs).1 + 1, (stringTail cs).2) := by
  simp only [inLine, Bool.and_eq_true, bne_iff_ne] at line
  have other : ¬ (c = '\n' ∨ c = '\r') := not_or.2 line
  cases cs <;> simp [stringTail, backslash, quote, other]

theorem escapesNewline_open (h : escapesNewline cs = true) : (stringTail cs).2 = false := by
  fun_induction stringTail cs with
  | case1 => rfl
  | case2 => rfl
  | case3 => rfl
  | case4 c cs line n closed rest ih =>
    rw [escapesNewline, if_neg line] at h
    exact (congrArg Prod.snd rest).symm.trans (ih h)
  | case5 cs => cases h
  | case6 c cs => rfl
  | case7 c cs single pair quote line n closed rest ih =>
    have backslash := ne_backslash single pair
    have inside : inLine c = true := by
      rw [not_or] at line
      simp [inLine, line]
    rw [escapesNewline_cons backslash quote inside] at h
    exact (congrArg Prod.snd rest).symm.trans (ih h)

theorem stringTail_write (noReturn : '\r' ∉ cs) :
    stringTail (S.write cs) = stringTail cs ∨ S.before ≠ [] ∧ escapesNewline cs = true := by
  fun_induction stringTail cs with
  | case1 => exact .inl (S.of_last (P := fun last => stringTail last = (0, false)) rfl rfl)
  | case2 =>
    rw [write_cons S (by decide)]
    exact .inl (S.of_last (P := fun last => stringTail ('\\' :: last) = (1, false)) rfl rfl)
  | case3 cs =>
    rcases S.before_eq with none | carriage
    · left
      rw [write_cons S (by decide), write_newline, none]
      rfl
    · right
      rw [carriage]
      exact ⟨List.cons_ne_nil _ _, rfl⟩
  | case4 c cs line n closed rest ih =>
    rw [List.mem_cons, List.mem_cons, not_or, not_or] at noReturn
    rw [write_cons S (by decide), write_cons S line, stringTail, if_neg line, escapesNewline, if_neg line]
    refine (ih noReturn.2.2).imp_left fun same => ?_
    rw [same, rest]
  | case5 cs =>
    left
    rw [write_cons S (by decide)]
    rfl
  | case6 c cs _ _ quote line =>
    left
    have newline : c = '\n' := line.resolve_right fun e => noReturn (e ▸ List.mem_cons_self)
    rw [newline, write_newline]
    exact S.of_before (P := fun before => stringTail (before ++ '\n' :: S.write cs) = (0, false)) rfl rfl
  | case7 c cs single pair quote line n closed rest ih =>
    have backslash := ne_backslash single pair
    rw [List.mem_cons, not_or] at noReturn
    rw [not_or] at line
    have inside : inLine c = true := by simp [inLine, line]
    rw [write_cons S line.1, stringTail_cons backslash quote inside, escapesNewline_cons backslash quote inside]
    refine (ih noReturn.2).imp_left fun same => ?_
    rw [same, rest]

theorem untilBrace_le (cs : List Char) : untilBrace cs ≤ (cs.takeWhile (· != '\n')).length := by
  induction cs with
  | nil => exact Nat.le_refl 0
  | cons c cs ih =>
    by_cases newline : c = '\n'
    · rw [untilBrace, if_pos newline]
      exact Nat.zero_le _
    · rw [untilBrace, if_neg newline, List.takeWhile_cons, if_pos (bne_iff_ne.2 newline), List.length_cons]
      split
      · exact Nat.le_add_left 1 _
      · exact Nat.succ_le_succ ih

theorem untilBrace_write (noReturn : '\r' ∉ cs) : untilBrace (S.write cs) = untilBrace cs ∨
    S.before ≠ [] ∧ '}' ∉ cs.takeWhile (· != '\n') ∧ '\n' ∈ cs := by
  induction cs with
  | nil => exact .inl (S.of_last (P := fun last => untilBrace last = 0) rfl rfl)
  | cons c cs ih =>
    rw [List.mem_cons, not_or] at noReturn
    by_cases h : c = '\n'
    · rcases S.before_eq with none | carriage
      · left
        rw [h, write_newline, none]
        rfl
      · right
        rw [h, carriage]
        exact ⟨List.cons_ne_nil _ _, List.not_mem_nil, List.mem_cons_self⟩
    · rw [write_cons S h, untilBrace, untilBrace, if_neg h, if_neg h]
      by_cases brace : c = '}'
      · rw [if_pos brace, if_pos brace]
        exact .inl rfl
      · rw [if_neg brace, if_neg brace]
        refine (ih noReturn.2).imp (congrArg Nat.succ) ?_
        rintro ⟨before, noBrace, more⟩
        refine ⟨before, ?_, List.mem_cons_of_mem _ more⟩
        rw [List.takeWhile_cons, if_pos (bne_iff_ne.2 h), List.mem_cons, not_or]
        exact ⟨Ne.symm brace, noBrace⟩

theorem untilBrackets_cons (c : Char) (cs : List Char) : untilBrackets (c :: cs) =
    if c = ']' ∧ cs.head? = some ']' then 2 else if c = '\n' then 0 else untilBrackets cs + 1 := by
  by_cases closes : c = ']' ∧ cs.head? = some ']'
  · obtain ⟨rest, hrest⟩ := List.head?_eq_some_iff.1 closes.2
    rw [if_pos closes, closes.1, hrest]
    rfl
  · rw [if_neg closes]
    rw [untilBrackets.eq_def (c :: cs)]
    split
    · next h => cases h
    · next h => cases h; exact absurd ⟨rfl, rfl⟩ closes
    · next h => cases h; rfl

theorem untilBrackets_le (cs : List Char) : untilBrackets cs ≤ (cs.takeWhile (· != '\n')).length := by
  induction cs with
  | nil => exact Nat.le_refl 0
  | cons c cs ih =>
    rw [untilBrackets_cons]
    by_cases closes : c = ']' ∧ cs.head? = some ']'
    · obtain ⟨rest, hrest⟩ := List.head?_eq_some_iff.1 closes.2
      rw [if_pos closes, closes.1, hrest]
      exact Nat.le_add_left 2 _
    · rw [if_neg closes]
      by_cases newline : c = '\n'
      · rw [if_pos newline]
        exact Nat.zero_le _
      · rw [if_neg newline, List.takeWhile_cons, if_pos (bne_iff_ne.2 newline), List.length_cons]
        exact Nat.succ_le_succ ih

theorem head?_write (inside : inLine c = true) : (S.write cs).head? = some c ↔ cs.head? = some c := by
  have other : c ≠ '\n' := fun e => by rw [e] at inside; cases inside
  have outside {tail : List Char} (stop : Stops inLine tail) : tail.head? ≠ some c := fun e => by
    rw [Stops, e] at stop
    exact absurd (stop.symm.trans inside) (by decide)
  cases cs with
  | nil =>
    have stop : Stops inLine (S.write []) := S.stops_last rfl
    exact ⟨fun e => absurd e (outside stop), fun e => absurd e (outside .nil)⟩
  | cons d cs =>
    by_cases h : d = '\n'
    · rw [h, write_newline]
      exact ⟨fun e => absurd e (outside (S.stops_before rfl rfl _)),
        fun e => absurd (Option.some.inj e).symm other⟩
    · rw [write_cons S h]
      exact Iff.rfl

theorem untilBrackets_write (noReturn : '\r' ∉ cs) : untilBrackets (S.write cs) = untilBrackets cs ∨
    S.before ≠ [] ∧ ¬ [']', ']'] <:+: cs.takeWhile (· != '\n') ∧ '\n' ∈ cs := by
  induction cs with
  | nil => exact .inl (S.of_last (P := fun last => untilBrackets last = 0) rfl rfl)
  | cons c cs ih =>
    rw [List.mem_cons, not_or] at noReturn
    by_cases h : c = '\n'
    · rcases S.before_eq with none | carriage
      · left
        rw [h, write_newline, none]
        rfl
      · right
        rw [h, carriage]
        exact ⟨List.cons_ne_nil _ _, fun inside => (by cases List.infix_nil.1 inside), List.mem_cons_self⟩
    · rw [write_cons S h, untilBrackets_cons, untilBrackets_cons, if_neg h, if_neg h]
      simp only [S.head?_write (show inLine ']' = true by decide)]
      by_cases closes : c = ']' ∧ cs.head? = some ']'
      · rw [if_pos closes, if_pos closes]
        exact .inl rfl
      · rw [if_neg closes, if_neg closes]
        refine (ih noReturn.2).imp (congrArg Nat.succ) fun ⟨before, noBrackets, more⟩ =>
          ⟨before, ?_, List.mem_cons_of_mem _ more⟩
        rw [List.takeWhile_cons, if_pos (bne_iff_ne.2 h), List.infix_cons_iff, not_or]
        refine ⟨fun starts => closes ?_, noBrackets⟩
        rw [List.cons_prefix_cons] at starts
        obtain ⟨rest, second⟩ := starts.2
        refine ⟨starts.1.symm, ?_⟩
        rw [List.singleton_append] at second
        cases cs with
        | nil => cases second
        | cons d cs =>
          rw [List.takeWhile_cons] at second
          split at second
          · rw [List.head?_cons, (List.cons.inj second).1]
          · cases second

/-! ## Cursors -/

/-- The same place in the text spelled so. -/
def cursor (text : List Char) (c : Cursor) : Cursor :=
  ⟨.ofChars (S.write text), S.write c.rest, (S.write text).length - (S.write c.rest).length, c.line, c.column⟩

theorem cursor_ofChars (text : List Char) : S.cursor text (.ofChars text) = .ofChars (S.write text) := by
  show (⟨_, _, (S.write text).length - (S.write text).length, _, _⟩ : Cursor) = _
  rw [Nat.sub_self]
  rfl

section

variable {text : List Char} {a c : Cursor}

/-- What was read and what is left make up the text. -/
theorem exists_read (h : (Cursor.ofChars text).Reaches c) :
    ∃ front, text = front ++ c.rest ∧ c.pos = front.length := by
  obtain ⟨n, rfl⟩ := h
  refine ⟨text.take n, ?_, ?_⟩
  · rw [Cursor.rest_advanceBy]
    exact (List.take_append_drop n text).symm
  · rw [Cursor.pos_advanceBy, List.length_take]
    exact Nat.zero_add _

theorem length_write_le (h : (Cursor.ofChars text).Reaches c) :
    (S.write c.rest).length ≤ (S.write text).length := by
  obtain ⟨front, whole, -⟩ := exists_read h
  rw [whole, write_append, List.length_append]
  exact Nat.le_add_left _ _

/-- One character further on. -/
theorem cursor_advance (h : (Cursor.ofChars text).Reaches c) {ch : Char} {rest : List Char}
    (hrest : c.rest = ch :: rest) :
    (S.cursor text c).advanceBy (S.body [ch]).length = S.cursor text c.advance := by
  have within := S.length_write_le h
  obtain ⟨source, cs, pos, line, column⟩ := c
  obtain rfl : cs = ch :: rest := hrest
  dsimp only at within
  by_cases newline : ch = '\n'
  · subst newline
    rw [write_newline] at within
    have next : (⟨source, '\n' :: rest, pos, line, column⟩ : Cursor).advance =
        ⟨source, rest, pos + 1, line + 1, 1⟩ := rfl
    simp only [next, cursor, write_newline, body_newline]
    rcases S.before_eq with none | carriage
    · simp only [none, List.nil_append, List.length_cons, body, List.flatMap_nil, List.length_nil] at within ⊢
      simp only [Cursor.advanceBy, Cursor.advance, if_true, Cursor.mk.injEq, true_and, and_true]
      omega
    · simp only [carriage, List.singleton_append, List.length_cons, body, List.flatMap_nil,
        List.length_nil] at within ⊢
      have other : '\r' ≠ '\n' := by decide
      simp only [Cursor.advanceBy, Cursor.advance, if_true, if_neg other, Cursor.mk.injEq, true_and, and_true]
      omega
  · rw [write_cons S newline] at within
    have next : (⟨source, ch :: rest, pos, line, column⟩ : Cursor).advance =
        ⟨source, rest, pos + 1, line, column + 1⟩ := by simp only [Cursor.advance, if_neg newline]
    simp only [next, cursor, write_cons S newline, body_cons S newline]
    simp only [List.length_cons, body, List.flatMap_nil, List.length_nil] at within ⊢
    simp only [Cursor.advanceBy, Cursor.advance, if_neg newline, Cursor.mk.injEq, true_and, and_true]
    omega

/-- Further on in both texts. -/
theorem cursor_advanceBy (h : (Cursor.ofChars text).Reaches c) (n : Nat) :
    (S.cursor text c).advanceBy (S.body (c.rest.take n)).length = S.cursor text (c.advanceBy n) := by
  induction n generalizing c with
  | zero => rfl
  | succ n ih =>
    cases hrest : c.rest with
    | nil =>
      have stays : c.advance = c := Cursor.advance_of_rest_nil hrest
      have := ih h
      rw [hrest, List.take_nil] at this
      rw [List.take_nil, Cursor.advanceBy, stays]
      exact this
    | cons ch rest =>
      have := ih (h.trans (Cursor.reaches_advance c))
      rw [Cursor.rest_advance, hrest, List.tail_cons] at this
      rw [List.take_succ_cons, ← List.singleton_append, body_append, List.length_append,
        Cursor.advanceBy_add, S.cursor_advance h hrest, this, Cursor.advanceBy]

/-- Inside a line places are as far apart. -/
theorem cursor_inLine (h : (Cursor.ofChars text).Reaches c) {n : Nat}
    (within : n ≤ (c.rest.takeWhile (· != '\n')).length) :
    (S.cursor text c).advanceBy n = S.cursor text (c.advanceBy n) := by
  have inside : '\n' ∉ c.rest.take n := by
    intro mem
    have front : c.rest.take n <+: c.rest.takeWhile (· != '\n') :=
      List.prefix_of_prefix_length_le (List.take_prefix _ _) (List.takeWhile_prefix _)
        (Nat.le_trans (List.length_take_le _ _) within)
    have := List.mem_takeWhile_imp (front.subset mem)
    cases this
  have count : (S.body (c.rest.take n)).length = n := by
    rw [body_of_line S inside, List.length_take]
    exact Nat.min_eq_left (Nat.le_trans within (List.takeWhile_prefix _).length_le)
  have there := S.cursor_advanceBy h n
  rwa [count] at there

/-- What was read between two places is spelled so. -/
theorem textSince_cursor (ha : (Cursor.ofChars text).Reaches a) (hc : (Cursor.ofChars text).Reaches c) :
    (S.cursor text c).textSince (S.cursor text a) = S.body (c.textSince a) := by
  rcases ha.total hc with ⟨k, rfl⟩ | ⟨k, rfl⟩
  · have written : (S.cursor text a).rest = S.body (a.rest.take k) ++ S.write (a.rest.drop k) := by
      rw [← write_append, List.take_append_drop]
      rfl
    rw [← S.cursor_advanceBy ha, Parse.textSince_advanceBy, Parse.textSince_advanceBy, written,
      List.take_left]
  · -- Nothing was read since a place further on.
    have none (start : Cursor) (k : Nat) : start.textSince (start.advanceBy k) = [] := by
      rw [Cursor.textSince, Cursor.pos_advanceBy, Nat.sub_eq_zero_of_le (Nat.le_add_right _ _), List.take_zero]
    rw [← S.cursor_advanceBy hc, none, none]
    rfl

/-- The line of a place ends where it did. -/
theorem lineEndColumn_cursor (noReturn : '\r' ∉ text) (ha : (Cursor.ofChars text).Reaches a)
    (hc : (Cursor.ofChars text).Reaches c) :
    (S.cursor text c).lineEndColumn (S.cursor text a).mark = c.lineEndColumn a.mark := by
  obtain ⟨stop, ends, -⟩ := ha.lineEnd
  have same : (lineEndColumns (S.write text))[a.line - 1]? = (lineEndColumns text)[a.line - 1]? := by
    rw [ha.source_eq] at ends
    have there : (lineEndColumns text)[a.line - 1]? = some stop := by
      simpa [Cursor.ofChars, SourceText.ofChars] using ends
    exact S.lineEndColumns_write noReturn (List.getElem?_eq_some_iff.1 there).1
  rw [Cursor.lineEndColumn, Cursor.lineEndColumn, hc.source_eq]
  show max ((lineEndColumns (S.write text)).toArray[a.line - 1]?.getD a.column) a.column =
    max ((lineEndColumns text).toArray[a.line - 1]?.getD a.column) a.column
  rw [List.getElem?_toArray, List.getElem?_toArray, same]

/-- Spans are where they were. -/
theorem spanFrom_cursor (noReturn : '\r' ∉ text) (ha : (Cursor.ofChars text).Reaches a)
    (hc : (Cursor.ofChars text).Reaches c) :
    (S.cursor text c).spanFrom (S.cursor text a).mark = c.spanFrom a.mark := by
  rw [Cursor.spanFrom, Cursor.spanFrom, S.lineEndColumn_cursor noReturn ha hc]
  rfl

/-- At the end of a text its last line ends. -/
theorem lineEndColumn_atEnd (noReturn : '\r' ∉ text) (hc : (Cursor.ofChars text).Reaches c)
    (atEnd : c.rest = []) (reached : a.Reaches c) (same : a.line = c.line) :
    c.lineEndColumn a.mark = c.column := by
  obtain ⟨before, front, on⟩ := hc.onLine
  have lines := on.lines_eq
  obtain ⟨more, split⟩ := splitLines_append on.noNewline []
  rw [atEnd, split, List.takeWhile_nil, List.append_nil] at lines
  have inside : '\r' ∉ front := fun mem =>
    noReturn ((sublist_of_mem_splitLines (by rw [lines]; simp)).subset mem)
  have all : front.takeWhile (· != '\r') = front := by
    rw [List.takeWhile_eq_self_iff]
    intro x hx
    exact bne_iff_ne.2 fun e => inside (e ▸ hx)
  have column : a.column ≤ c.column := reached.column_le same.symm
  rw [Cursor.lineEndColumn, hc.source_eq]
  show max ((lineEndColumns text).toArray[a.line - 1]?.getD a.column) a.column = c.column
  have there : (lineEndColumns text)[a.line - 1]? = some (front.length + 1) := by
    rw [lineEndColumns, lines, same, on.line_eq]
    simp [all]
  rw [List.getElem?_toArray, there, Option.getD_some, ← on.column_eq]
  exact Nat.max_eq_left column

theorem reaches_atEnd (ha : (Cursor.ofChars text).Reaches a) (hc : (Cursor.ofChars text).Reaches c)
    (atEnd : c.rest = []) : a.Reaches c := by
  rcases ha.total hc with reached | ⟨k, rfl⟩
  · exact reached
  · rw [Cursor.advanceBy_of_rest_nil atEnd]
    exact .refl _

/-- Behind a newline at the end of the text, spans end where they did. -/
theorem spanFrom_advance_cursor (noReturn : '\r' ∉ text) (ha : (Cursor.ofChars text).Reaches a)
    (hc : (Cursor.ofChars text).Reaches c) (atEnd : c.rest = []) (last : S.last = ['\n']) :
    (S.cursor text c).advance.spanFrom (S.cursor text a).mark = c.spanFrom a.mark := by
  have reached := reaches_atEnd ha hc atEnd
  have position : (S.cursor text c).advance.position = ⟨c.line + 1, 1⟩ := by
    have written : S.write c.rest = ['\n'] := by rw [atEnd, write, last]; rfl
    rw [cursor, written]
    rfl
  have ends : (S.cursor text c).advance.lineEndColumn (S.cursor text a).mark = c.lineEndColumn a.mark := by
    rw [← S.lineEndColumn_cursor noReturn ha hc, Cursor.lineEndColumn, Cursor.source_advance,
      Cursor.lineEndColumn]
  have before := reached.line_le
  rw [Cursor.spanFrom, Cursor.spanFrom, position, ends]
  have below : ¬ c.line + 1 = a.line := by omega
  show (⟨a.line, a.column, (if c.line + 1 = a.line then 1 else c.lineEndColumn a.mark) - a.column⟩ : Span) =
    ⟨a.line, a.column, (if c.line = a.line then c.column else c.lineEndColumn a.mark) - a.column⟩
  rw [if_neg below]
  by_cases same : c.line = a.line
  · rw [if_pos same, lineEndColumn_atEnd noReturn hc atEnd reached same.symm]
  · rw [if_neg same]

/-- At the end of the text there is nothing more, or the newline behind it. -/
theorem advance_cursor_atEnd (atEnd : c.rest = []) :
    (S.last = [] ∧ (S.cursor text c).advance = S.cursor text c) ∨ S.last = ['\n'] := by
  refine S.last_eq.imp_left fun none => ⟨none, Cursor.advance_of_rest_nil ?_⟩
  show S.write c.rest = []
  rw [atEnd, write, none]
  rfl

theorem inLine_of_not_mem {cs : List Char} (h : '\n' ∉ cs) : ∀ c ∈ cs, (c != '\n') = true :=
  fun _ mem => bne_iff_ne.2 (ne_of_mem_of_not_mem mem h)

/-- A line and its end, spelled so. -/
theorem length_line_write {front : List Char} (inside : '\n' ∉ front) (rest : List Char) :
    ((S.write (front ++ '\n' :: rest)).takeWhile (· != '\n')).length + 1 =
      (S.body (front ++ ['\n'])).length := by
  have stops : ('\n' :: S.write rest).takeWhile (· != '\n') = [] := rfl
  rw [write_append, body_of_line S inside, write_newline, List.takeWhile_append_of_pos (inLine_of_not_mem inside),
    List.takeWhile_append_of_pos (inLine_of_not_mem S.newline_not_mem_before), stops, body_append,
    body_of_line S inside, body_newline]
  simp only [List.length_append, List.length_nil, List.length_cons, body, List.flatMap_nil]
  omega

/-- The rest of a line, spelled so. -/
theorem skipLine_cursor (hc : (Cursor.ofChars text).Reaches c) :
    (S.cursor text c).skipLine = S.cursor text c.skipLine ∨
      S.last = ['\n'] ∧ c.skipLine.rest = [] ∧
        (S.cursor text c).skipLine = (S.cursor text c.skipLine).advance := by
  rw [Cursor.skipLine_eq, Cursor.skipLine_eq]
  show (S.cursor text c).advanceBy (((S.write c.rest).takeWhile (· != '\n')).length + 1) = _ ∨ _ ∧ _ ∧
    (S.cursor text c).advanceBy (((S.write c.rest).takeWhile (· != '\n')).length + 1) = _
  by_cases newline : '\n' ∈ c.rest
  · left
    obtain ⟨front, rest, whole, inside⟩ := List.eq_append_cons_of_mem newline
    have line : (c.rest.takeWhile (· != '\n')).length = front.length := by
      rw [whole, List.takeWhile_append_of_pos (inLine_of_not_mem inside)]
      exact congrArg List.length (List.append_nil front)
    have read : c.rest.take (front.length + 1) = front ++ ['\n'] := by
      have split : c.rest = (front ++ ['\n']) ++ rest := by rw [whole, List.append_assoc]; rfl
      rw [split]
      exact List.take_left' (by rw [List.length_append]; rfl)
    rw [line, ← S.cursor_advanceBy hc, read, whole, S.length_line_write inside]
  · have line : c.rest.takeWhile (· != '\n') = c.rest := List.takeWhile_eq_self_iff.2 (inLine_of_not_mem newline)
    have line' : (S.write c.rest).takeWhile (· != '\n') = c.rest := by
      rw [write, body_of_line S newline, List.takeWhile_append_of_pos (inLine_of_not_mem newline),
        (S.stops_last rfl).takeWhile_eq, List.append_nil]
    have atEnd : (c.advanceBy c.rest.length).rest = [] := by
      rw [Cursor.rest_advanceBy, List.drop_length]
    have stays : c.advanceBy (c.rest.length + 1) = c.advanceBy c.rest.length := by
      rw [Cursor.advanceBy_add]
      exact Cursor.advance_of_rest_nil atEnd
    have there : (S.cursor text c).advanceBy (c.rest.length + 1) =
        (S.cursor text (c.advanceBy c.rest.length)).advance := by
      rw [Cursor.advanceBy_add, ← S.cursor_advanceBy hc, List.take_length, body_of_line S newline]
      rfl
    rw [line, line', stays, there]
    exact (S.advance_cursor_atEnd atEnd).imp And.right fun last => ⟨last, atEnd, rfl⟩

theorem skipBlank_cursor (hc : (Cursor.ofChars text).Reaches c) :
    (S.cursor text c).skipBlank = S.cursor text c.skipBlank ∧ (c.skipBlank.rest = [] → S.last = []) ∨
      S.last = ['\n'] ∧ c.skipBlank.rest = [] ∧
        (S.cursor text c).skipBlank = (S.cursor text c.skipBlank).advance := by
  have far : (S.cursor text c).skipBlank = (S.cursor text c.skipBlank).advanceBy
      (if blankRun false c.rest = c.rest.length then S.last.length else 0) := by
    rw [Cursor.skipBlank, Cursor.skipBlank, ← S.cursor_advanceBy hc, ← Cursor.advanceBy_add, ← blankRun_write]
    rfl
  have within := Frame.blankRun_le_length false c.rest
  have atEnd : c.skipBlank.rest = [] ↔ blankRun false c.rest = c.rest.length := by
    rw [Cursor.skipBlank, Cursor.rest_advanceBy, List.drop_eq_nil_iff]
    omega
  by_cases all : blankRun false c.rest = c.rest.length
  · rw [if_pos all] at far
    rcases S.last_eq with none | newline
    · rw [none] at far
      exact .inl ⟨far, fun _ => none⟩
    · rw [newline] at far
      exact .inr ⟨newline, atEnd.2 all, far⟩
  · rw [if_neg all] at far
    exact .inl ⟨far, fun last => absurd (atEnd.1 last) all⟩

end

end Spelling

end PatternRules

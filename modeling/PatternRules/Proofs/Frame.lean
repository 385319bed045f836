import PatternRules.Proofs.Accepts
import PatternRules.Proofs.Reach

/-!
A text within a larger one: whole lines stand before it, and behind it nothing or a newline and the start
of a rule. `Frame.lift` takes a cursor on the text to the same place in the frame. Whatever looks no
further than its line sees the same there, since a newline ends a line as the end of the text does.

* `Frame.spanFrom_lift`, `Frame.textSince_lift`: spans move down with the lines, texts stay;
* `Frame.lift_advanceBy`: reading on, up to the end of the text;
* `Frame.atRuleStart_lift` and others: what comes next;
* `Frame.blankRun_append_rule`: blanks end where they do in the text, or in front of the rule behind it.
-/

namespace PatternRules

/-! ## Moving down -/

def Span.down (k : Nat) (s : Span) : Span := { s with line := s.line + k }

def SyntaxError.down (k : Nat) (e : SyntaxError) : SyntaxError := { e with span := e.span.down k }

mutual

/-- The tree with all its lines moved down. -/
def Node.down (k : Nat) : Node → Node
  | ⟨kind, value, children, span⟩ => ⟨kind, value, Node.downAll k children, span.down k⟩

def Node.downAll (k : Nat) : List Node → List Node
  | [] => []
  | n :: ns => n.down k :: Node.downAll k ns

end

theorem Node.downAll_eq_map (k : Nat) (ns : List Node) : downAll k ns = ns.map (down k) := by
  induction ns with
  | nil => rw [downAll, List.map_nil]
  | cons n ns ih => rw [downAll, List.map_cons, ih]

theorem Node.down_mk (k : Nat) (kind : Kind) (value : Option Value) (children : List Node)
    (span : Span) :
    down k ⟨kind, value, children, span⟩ = ⟨kind, value, children.map (down k), span.down k⟩ := by
  rw [down, downAll_eq_map]

/-! ## Frames -/

/-- What stands around a text: whole lines before it, and behind it nothing or a newline and the start of
a rule. -/
structure Frame where
  before : List Char
  text : List Char
  behind : List Char
  wholeLines : before = [] ∨ ∃ front, before = front ++ ['\n']
  nextRule : behind = [] ∨ ∃ line, behind = '\n' :: line ∧ startsRule line = true

/-- Newlines separate the lines of what is in front of them from those of what is behind. -/
theorem splitLines_append_cons (front rest : List Char) :
    splitLines (front ++ '\n' :: rest) = splitLines front ++ splitLines rest := by
  induction front with
  | nil => simp [splitLines]
  | cons c front ih =>
    by_cases hc : c = '\n'
    · simp [splitLines, hc, ih]
    · cases hl : splitLines front with
      | nil => exact absurd hl (splitLines_ne_nil front)
      | cons line lines =>
        rw [hl] at ih
        simp [splitLines, hc, hl, ih]

namespace Frame

variable {F : Frame} {a b c : Cursor}

/-- The text with what stands around it. -/
def whole (F : Frame) : List Char := F.before ++ (F.text ++ F.behind)

/-- How many lines stand before the text. -/
def lines (F : Frame) : Nat := F.before.count '\n'

/-- The name of the rule behind the text. -/
def word (F : Frame) : List Char := F.behind.tail.takeWhile isWordChar

/-- The same place in the frame. -/
def lift (F : Frame) (c : Cursor) : Cursor :=
  ⟨.ofChars F.whole, c.rest ++ F.behind, c.pos + F.before.length, c.line + F.lines, c.column⟩

@[simp]
theorem rest_lift (F : Frame) (c : Cursor) : (F.lift c).rest = c.rest ++ F.behind := rfl

theorem stops_behind {p : Char → Bool} (newline : p '\n' = false) : Stops p F.behind := by
  rcases F.nextRule with none | ⟨line, behind, -⟩
  · rw [none]
    exact .nil
  · rw [behind]
    exact Stops.cons_iff.2 newline

theorem splitLines_whole (F : Frame) : ∃ above below, above.length = F.lines ∧
    splitLines F.whole = above ++ (splitLines F.text ++ below) := by
  obtain ⟨below, inner⟩ : ∃ below, splitLines (F.text ++ F.behind) = splitLines F.text ++ below := by
    rcases F.nextRule with none | ⟨line, behind, -⟩
    · exact ⟨[], by rw [none, List.append_nil, List.append_nil]⟩
    · exact ⟨splitLines line, by rw [behind, splitLines_append_cons]⟩
  rcases F.wholeLines with none | ⟨front, before⟩
  · exact ⟨[], below, by rw [lines, none]; rfl, by rw [whole, none]; exact inner⟩
  · refine ⟨splitLines front, below, ?_, ?_⟩
    · rw [length_splitLines, lines, before, List.count_append]
      rfl
    · rw [whole, before, List.append_assoc, List.singleton_append, splitLines_append_cons, inner]

theorem lineEnd_lift (h : (Cursor.ofChars F.text).Reaches c) :
    (lineEndColumns F.whole)[c.line + F.lines - 1]? = (lineEndColumns F.text)[c.line - 1]? := by
  obtain ⟨before, front, on⟩ := h.onLine
  obtain ⟨above, below, length, split⟩ := F.splitLines_whole
  have inside : c.line - 1 < (splitLines F.text).length := by
    rw [on.lines_eq, on.line_eq, List.length_append]
    have := List.length_pos_iff.2 (splitLines_ne_nil (front ++ c.rest))
    omega
  have index : c.line + F.lines - 1 = above.length + (c.line - 1) := by
    rw [on.line_eq, length]
    omega
  rw [lineEndColumns, lineEndColumns, List.getElem?_map, List.getElem?_map, split, index,
    List.getElem?_append_right (Nat.le_add_right _ _), Nat.add_sub_cancel_left,
    List.getElem?_append_left inside]

theorem spanFrom_lift (ha : (Cursor.ofChars F.text).Reaches a)
    (hb : (Cursor.ofChars F.text).Reaches b) :
    (F.lift b).spanFrom (F.lift a).mark = (b.spanFrom a.mark).down F.lines := by
  have lineEnd : (F.lift b).lineEndColumn (F.lift a).mark = b.lineEndColumn a.mark := by
    have found := lineEnd_lift ha
    unfold Cursor.lineEndColumn
    rw [hb.source_eq]
    simp only [lift, Cursor.mark, SourceText.ofChars, Cursor.ofChars, List.getElem?_toArray, found]
  have same : (F.lift b).line = (F.lift a).line ↔ b.line = a.line := Nat.add_right_cancel_iff
  show Span.between _ _ _ = Span.down _ (Span.between _ _ _)
  rw [lineEnd]
  simp only [Span.between, Span.down, Cursor.mark, Mark.position, Cursor.position, same]
  rfl

theorem textSince_lift (ha : (Cursor.ofChars F.text).Reaches a)
    (hb : (Cursor.ofChars F.text).Reaches b) :
    (F.lift b).textSince (F.lift a) = b.textSince a := by
  have valid {c : Cursor} (h : (Cursor.ofChars F.text).Reaches c) :
      c.pos + c.rest.length = F.text.length := by
    obtain ⟨n, rfl⟩ := h
    have := ((Cursor.valid_ofChars F.text).advanceBy n).length_rest
    rwa [Cursor.source_advanceBy] at this
  have endA := valid ha
  have endB := valid hb
  show (a.rest ++ F.behind).take (b.pos + F.before.length - (a.pos + F.before.length)) = _
  rw [Nat.add_sub_add_right, List.take_append_of_le_length (by omega)]
  rfl

theorem lift_advance (h : c.rest ≠ []) : F.lift c.advance = (F.lift c).advance := by
  obtain ⟨ch, rest, hrest⟩ := List.exists_cons_of_ne_nil h
  unfold Cursor.advance
  simp only [rest_lift, hrest, List.cons_append]
  split
  · simp only [lift, Nat.add_right_comm]
  · simp only [lift, Nat.add_right_comm]

theorem lift_advanceBy {n : Nat} (h : n ≤ c.rest.length) :
    F.lift (c.advanceBy n) = (F.lift c).advanceBy n := by
  induction n generalizing c with
  | zero => rfl
  | succ n ih =>
    have some : c.rest ≠ [] := by
      rintro none
      rw [none] at h
      exact absurd h (Nat.not_succ_le_zero n)
    have fits : n ≤ c.advance.rest.length := by
      rw [Cursor.rest_advance, List.length_tail]
      omega
    rw [Cursor.advanceBy, Cursor.advanceBy, ih fits, lift_advance some]

/-! ### Looking ahead in a frame -/

theorem run_lift {p : Char → Bool} (newline : p '\n' = false) (c : Cursor) :
    (F.lift c).run p = c.run p := by
  rw [Cursor.run, Cursor.run, rest_lift, List.takeWhile_append]
  split
  · next all => rw [(stops_behind newline).takeWhile_eq, List.append_nil,
      (List.takeWhile_prefix p).eq_of_length all]
  · rfl

theorem lift_skipWhile {p : Char → Bool} (newline : p '\n' = false) (c : Cursor) :
    F.lift (c.skipWhile p) = (F.lift c).skipWhile p := by
  rw [Cursor.skipWhile, Cursor.skipWhile, run_lift newline]
  exact lift_advanceBy (List.takeWhile_prefix p).length_le

theorem any_peek_lift {p : Char → Bool} (newline : p '\n' = false) (c : Cursor) :
    (F.lift c).peek.any p = c.peek.any p := by
  rw [Cursor.peek, Cursor.peek, rest_lift]
  cases c.rest with
  | nil => exact stops_behind newline
  | cons ch rest => rfl

theorem peek_lift {ch : Char} (other : ch ≠ '\n') (c : Cursor) :
    (F.lift c).peek = some ch ↔ c.peek = some ch := by
  have any := any_peek_lift (F := F) (p := (· == ch)) (by simpa using other.symm) c
  simpa [Option.any_eq_true] using Bool.eq_iff_iff.1 any

theorem nextSpan_lift (c : Cursor) : (F.lift c).nextSpan = c.nextSpan.down F.lines := by
  have length : (F.lift c).nextSpan.length = c.nextSpan.length := by
    simp only [Cursor.nextSpan, Cursor.peek, rest_lift]
    cases c.rest with
    | nil =>
      rcases F.nextRule with none | ⟨line, behind, -⟩
      · rw [none]
        rfl
      · rw [behind]
        rfl
    | cons ch rest => rfl
  rw [Span.down, ← length]
  rfl

theorem peekAt_lift {p : Char → Bool} (newline : p '\n' = false) (c : Cursor) {n : Nat}
    (h : n ≤ c.rest.length) : ((F.lift c).peekAt n).any p = (c.peekAt n).any p := by
  rw [Cursor.peekAt, Cursor.peekAt, rest_lift]
  rcases Nat.lt_or_ge n c.rest.length with inside | outside
  · rw [List.getElem?_append_left inside]
  · have same : n = c.rest.length := Nat.le_antisymm h outside
    rw [same, List.getElem?_append_right (Nat.le_refl _), Nat.sub_self, ← List.head?_eq_getElem?,
      List.getElem?_eq_none (Nat.le_refl _)]
    exact stops_behind newline

theorem checkLiteral_lift {literal : String} (newline : '\n' ∉ literal.toList) (c : Cursor) :
    (F.lift c).checkLiteral literal = c.checkLiteral literal := by
  rw [Bool.eq_iff_iff, Cursor.checkLiteral, Cursor.checkLiteral, List.isPrefixOf_iff_prefix,
    List.isPrefixOf_iff_prefix, rest_lift]
  refine ⟨?_, fun h => h.trans (List.prefix_append _ _)⟩
  intro h
  rcases Nat.le_total literal.toList.length c.rest.length with short | long
  · exact List.prefix_of_prefix_length_le h (List.prefix_append _ _) short
  · -- A longer literal would go on into what is behind, and that starts with a newline.
    have inside : c.rest <+: literal.toList :=
      List.prefix_of_prefix_length_le (List.prefix_append _ _) h long
    obtain ⟨more, hmore⟩ := inside
    rw [← hmore, List.prefix_append_right_inj] at h
    cases more with
    | nil =>
      rw [List.append_nil] at hmore
      exact hmore ▸ List.prefix_rfl
    | cons ch more =>
      rcases F.nextRule with none | ⟨line, behind, -⟩
      · rw [none] at h
        exact absurd h.length_le (Nat.not_succ_le_zero _)
      · rw [behind, List.cons_prefix_cons] at h
        rw [← hmore, h.1] at newline
        exact absurd (List.mem_append_right _ List.mem_cons_self) newline

theorem checkWord_lift {word : String} (h : word.toList.all isWordChar = true) (c : Cursor) :
    (F.lift c).checkWord word = c.checkWord word := by
  have run : (F.lift c).rest.takeWhile isWordChar = c.rest.takeWhile isWordChar := run_lift rfl c
  rw [Bool.eq_iff_iff, Cursor.checkWord_iff h, Cursor.checkWord_iff h, run]

theorem peekWord?_lift (c : Cursor) : (F.lift c).peekWord? = c.peekWord? := by
  unfold Cursor.peekWord?
  rw [run_lift rfl]

theorem dropWhile_append_behind {p : Char → Bool} (newline : p '\n' = false) (cs : List Char) :
    (cs ++ F.behind).dropWhile p = cs.dropWhile p ++ F.behind := by
  rw [List.dropWhile_append]
  split
  · next none => rw [(stops_behind newline).dropWhile_eq, List.isEmpty_iff.1 none, List.nil_append]
  · rfl

theorem startsAssignment_append_behind (cs : List Char) :
    startsAssignment (cs ++ F.behind) = startsAssignment cs := by
  rcases F.nextRule with none | ⟨line, behind, -⟩
  · rw [none, List.append_nil]
  · rw [behind]
    match cs with
    | [] => rfl
    | [c] =>
      by_cases hc : c = '='
      · rw [hc]
        rfl
      · rw [startsAssignment_of_ne hc]
        exact startsAssignment_of_ne hc _
    | c :: d :: cs =>
      by_cases hc : c = '='
      · by_cases hd : d = '='
        · rw [hc, hd]
          rfl
        · simp [startsAssignment, hc, hd]
      · rw [startsAssignment_of_ne hc]
        exact startsAssignment_of_ne hc _

theorem atRuleStart_lift (c : Cursor) : (F.lift c).atRuleStart = c.atRuleStart := by
  have start : (F.lift c).rest.head?.any isIdentStart = c.rest.head?.any isIdentStart :=
    any_peek_lift rfl c
  rw [Cursor.atRuleStart, Cursor.atRuleStart, startsRule, startsRule, start, rest_lift,
    dropWhile_append_behind rfl, dropWhile_append_behind rfl, startsAssignment_append_behind]

theorem atKeyword_lift {word : String} (h : word.toList.all isWordChar = true) (c : Cursor) :
    (F.lift c).atKeyword word = c.atKeyword word := by
  rw [Cursor.atKeyword, Cursor.atKeyword, checkWord_lift h, atRuleStart_lift]

theorem stringTail_append_behind (cs : List Char) : stringTail (cs ++ F.behind) = stringTail cs := by
  rcases F.nextRule with none | ⟨line, behind, -⟩
  · rw [none, List.append_nil]
  · have noEscape {c : Char} {cs : List Char} (single : c = '\\' → cs = [] → False)
        (pair : ∀ d ds, c = '\\' → cs = d :: ds → False) : c ≠ '\\' := by
      intro escape
      cases cs with
      | nil => exact single escape rfl
      | cons d ds => exact pair d ds escape rfl
    rw [behind]
    fun_induction stringTail cs with
    | case1 => rfl
    | case2 => rfl
    | case3 cs => rfl
    | case4 c cs hc n closed rest ih => simp [stringTail, hc, ih, rest]
    | case5 cs => simp [stringTail]
    | case6 c cs single pair quote stop => simp [stringTail, noEscape single pair, quote, stop]
    | case7 c cs single pair quote stop n closed rest ih =>
      simp [stringTail, noEscape single pair, quote, stop, ih, rest]

theorem untilBrace_append_behind (cs : List Char) : untilBrace (cs ++ F.behind) = untilBrace cs := by
  rcases F.nextRule with none | ⟨line, behind, -⟩
  · rw [none, List.append_nil]
  · rw [behind]
    induction cs with
    | nil => rfl
    | cons c cs ih => simp only [List.cons_append, untilBrace, ih]

theorem untilBrackets_append_behind (cs : List Char) :
    untilBrackets (cs ++ F.behind) = untilBrackets cs := by
  rcases F.nextRule with none | ⟨line, behind, -⟩
  · rw [none, List.append_nil]
  · rw [behind]
    fun_induction untilBrackets cs with
    | case1 => rfl
    | case2 => rfl
    | case3 cs => rfl
    | case4 c cs other hc ih =>
      rw [List.cons_append, untilBrackets, if_neg hc, ih]
      rintro tail rfl
      cases cs with
      | nil => exact fun h => by cases h
      | cons d cs =>
        intro h
        exact other cs rfl (by rw [(List.cons.inj h).1])

theorem versionLength_append_behind (cs : List Char) :
    versionLength (cs ++ F.behind) = versionLength cs := by
  rcases F.nextRule with none | ⟨line, behind, -⟩
  · rw [none, List.append_nil]
  · rw [behind]
    induction cs with
    | nil => rfl
    | cons c cs ih =>
      have next : (cs ++ '\n' :: line).head?.any Char.isDigit = cs.head?.any Char.isDigit := by
        cases cs with
        | nil => rfl
        | cons d cs => rfl
      simp only [List.cons_append, versionLength, ih, next]

/-! ### Blanks in a frame -/

theorem blankRun_le_length (inComment : Bool) (cs : List Char) :
    blankRun inComment cs ≤ cs.length := by
  induction cs generalizing inComment with
  | nil => exact Nat.le_refl 0
  | cons c cs ih =>
    simp only [blankRun, List.length_cons]
    split
    · exact Nat.succ_le_succ (ih _)
    · split
      · exact Nat.succ_le_succ (ih _)
      · split
        · exact Nat.succ_le_succ (ih _)
        · exact Nat.zero_le _

theorem blankRun_of_startsRule {line : List Char} (rule : startsRule line = true) :
    blankRun false line = 0 := by
  obtain ⟨c, rest, rfl, start⟩ := head_of_startsRule rule
  exact @blankRun_append [] _ rfl (Stops.cons_iff.2 (opensBlank_of_isIdentStart start))

/-- Blanks end where they do in the text, or go on behind the newline that ends it. -/
theorem blankRun_append_newline (inComment : Bool) (cs line : List Char) :
    blankRun inComment (cs ++ '\n' :: line) =
      if blankRun inComment cs < cs.length then blankRun inComment cs
      else cs.length + 1 + blankRun false line := by
  induction cs generalizing inComment with
  | nil =>
    cases inComment with
    | false => simp [blankRun, isBlank, Nat.add_comm]
    | true => simp [blankRun, Nat.add_comm]
  | cons c cs ih =>
    have next (b : Bool) : blankRun b (cs ++ '\n' :: line) + 1 =
        if blankRun b cs + 1 < cs.length + 1 then blankRun b cs + 1
        else cs.length + 1 + 1 + blankRun false line := by
      rw [ih]
      split <;> split <;> omega
    simp only [List.cons_append, blankRun, List.length_cons]
    split
    · exact next _
    · split
      · exact next _
      · split
        · exact next _
        · rfl

/-- Blanks end where they do in the text, or in front of the rule behind it. -/
theorem blankRun_append_rule {line : List Char} (rule : startsRule line = true) (inComment : Bool)
    (cs : List Char) : blankRun inComment (cs ++ '\n' :: line) =
      if blankRun inComment cs < cs.length then blankRun inComment cs else cs.length + 1 := by
  rw [blankRun_append_newline, blankRun_of_startsRule rule, Nat.add_zero]

end Frame

end PatternRules

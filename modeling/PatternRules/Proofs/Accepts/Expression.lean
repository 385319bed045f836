import PatternRules.Proofs.Accepts.Atoms

/-!
Expressions are accepted as they are written. What may follow each construct is said by a predicate
on the rest of the text: `EndsItem`, `EndsBranch` and `Closes`. Groups and captures take what they
contain as a hypothesis on the inner parser (`AcceptsWithin`), and `expressionWithin_accepts`
discharges it level by level.
-/

namespace PatternRules

/-! ## How expressions start -/

/-- Characters that start a primary. -/
def opensPrimary (c : Char) : Bool :=
  isIdentStart c || ['\\', '^', '$', '.', '[', '"', '('].contains c

theorem opensBlank_of_opensPrimary {c : Char} (h : opensPrimary c = true) : opensBlank c = false :=
  opensBlank_of_kind rfl h

theorem opensQuantifier_of_opensPrimary {c : Char} (h : opensPrimary c = true) :
    opensQuantifier c = false := by
  rw [opensQuantifier, beq_false_of_ne (ne_of_kind h rfl), beq_false_of_ne (ne_of_kind h rfl), Bool.or_self]

namespace Abstract

theorem Primary.Written.head {p : Primary} {text : List Char} (h : p.Written text) :
    ∃ c rest, text = c :: rest ∧ opensPrimary c = true := by
  cases h with
  | @operand name =>
    exact ⟨name.first, name.further, rfl, by rw [opensPrimary, name.first_start, Bool.true_or]⟩
  | anchor a =>
    cases a with
    | lineStart => exact ⟨'^', _, rfl, rfl⟩
    | lineEnd => exact ⟨'$', _, rfl, rfl⟩
  | _ => exact ⟨_, _, rfl, rfl⟩

theorem Branch.Written.head {b : Branch} {text : List Char} (h : b.Written text) :
    ∃ c rest, text = c :: rest ∧ opensPrimary c = true := by
  cases h with
  | last hp _ =>
    obtain ⟨c, rest, rfl, hc⟩ := hp.head
    exact ⟨c, _, List.cons_append, hc⟩
  | more hp _ _ _ _ =>
    obtain ⟨c, rest, rfl, hc⟩ := hp.head
    exact ⟨c, _, List.cons_append, hc⟩

theorem Expression.Written.head {e : Expression} {text : List Char} (h : e.Written text) :
    ∃ c rest, text = c :: rest ∧ opensPrimary c = true := by
  cases h with
  | last hb => exact hb.head
  | more hb _ _ _ =>
    obtain ⟨c, rest, rfl, hc⟩ := hb.head
    exact ⟨c, _, List.cons_append, hc⟩

theorem Primary.Written.stops_identStart {p : Primary} {text : List Char} (h : p.Written text)
    (other : runsOn p none = false) (tail : List Char) : Stops isIdentStart (text ++ tail) := by
  cases h with
  | operand _ => cases other
  | anchor a => cases a <;> exact Stops.cons_iff.2 rfl
  | _ => exact Stops.cons_iff.2 rfl

theorem Primary.Written.stops_blank {p : Primary} {text : List Char} (h : p.Written text) (tail : List Char) :
    Stops opensBlank (text ++ tail) := by
  obtain ⟨c, rest, rfl, hc⟩ := h.head
  exact opensBlank_of_opensPrimary hc

theorem Branch.Written.stops_blank {b : Branch} {text : List Char} (h : b.Written text) (tail : List Char) :
    Stops opensBlank (text ++ tail) := by
  obtain ⟨c, rest, rfl, hc⟩ := h.head
  exact opensBlank_of_opensPrimary hc

theorem Branch.Written.ne_nil {b : Branch} {text : List Char} (h : b.Written text) (front : List Char) :
    front ++ text ≠ [] := by
  obtain ⟨c, rest, rfl, -⟩ := h.head
  exact List.append_ne_nil_of_right_ne_nil _ (List.cons_ne_nil _ _)

theorem Expression.Written.stops_blank {e : Expression} {text : List Char} (h : e.Written text)
    (tail : List Char) : Stops opensBlank (text ++ tail) := by
  obtain ⟨c, rest, rfl, hc⟩ := h.head
  exact opensBlank_of_opensPrimary hc

end Abstract

/-! ## What may follow -/

open Abstract

/-- What may stand behind an item: behind a name, what may stand behind a word. -/
structure EndsItem (p : Primary) (q : Option Quantifier) (tail : List Char) : Prop where
  word : runsOn p q = true → EndsWord tail
  noQuantifier : Stops opensQuantifier tail

/-- What may stand behind an expression: a closing parenthesis, a `uses` clause, the end of the line and then a
rule or nothing, or nothing at all. -/
inductive Closes : List Char → Prop
  | parenthesis {gap : List Char} (h : Gap gap) (rest : List Char) : Closes (gap ++ ')' :: rest)
  | clause {rest : List Char} (h : EndsWord rest) : Closes (' ' :: ("uses".toList ++ rest))
  | line {rest : List Char} (h : rest = [] ∨ startsRule rest = true) : Closes ('\n' :: rest)
  | nothing : Closes []

/-- What may stand behind a branch: a bar, or what may stand behind an expression. -/
inductive EndsBranch : List Char → Prop
  | bar {gap : List Char} (h : Gap gap) (rest : List Char) : EndsBranch (gap ++ '|' :: rest)
  | closes {tail : List Char} (h : Closes tail) : EndsBranch tail

/-- Behind a gap, a character that starts no word and no quantifier. -/
theorem EndsItem.behindGap {p : Primary} {q : Option Quantifier} {gap : List Char} (h : Gap gap) {c : Char}
    (stop : opensBlank c = false) (equals : c ≠ '=')
    (word : runsOn p q = true → gap = [] → isWordChar c = false) (noQuantifier : opensQuantifier c = false)
    (rest : List Char) : EndsItem p q (gap ++ c :: rest) :=
  ⟨fun runs => .behindGap h stop equals (word runs) rest, .behindGap rfl h fun _ => noQuantifier⟩

theorem EndsBranch.bar_append {gap : List Char} (h : Gap gap) (rest tail : List Char) :
    EndsBranch (gap ++ '|' :: rest ++ tail) := by
  rw [List.append_assoc]
  exact .bar h _

theorem EndsBranch.endsItem {tail : List Char} (h : EndsBranch tail) (p : Primary) (q : Option Quantifier) :
    EndsItem p q tail := by
  cases h with
  | bar h rest => exact .behindGap h rfl (by decide) (fun _ _ => rfl) rfl rest
  | closes h =>
    cases h with
    | parenthesis h rest => exact .behindGap h rfl (by decide) (fun _ _ => rfl) rfl rest
    | clause h => exact ⟨fun _ => ⟨rfl, rfl⟩, rfl⟩
    | line h => exact ⟨fun _ => ⟨rfl, rfl⟩, rfl⟩
    | nothing => exact ⟨fun _ => ⟨rfl, rfl⟩, rfl⟩

/-- The next item of a branch. -/
theorem Abstract.Branch.Written.endsItem {p : Primary} {q : Option Quantifier} {further : Branch}
    {gap rest : List Char} (hf : further.Written rest) (hg : Gap gap)
    (apart : runsOn p q = true → gap = [] → rest.head?.any isWordChar = false) (tail : List Char) :
    EndsItem p q (gap ++ rest ++ tail) := by
  obtain ⟨c, cs, rfl, hc⟩ := hf.head
  rw [List.append_assoc, List.cons_append]
  exact .behindGap hg (opensBlank_of_opensPrimary hc) (ne_of_kind hc rfl) apart
    (opensQuantifier_of_opensPrimary hc) _

/-- Blanks and what lies behind them: nothing that continues an expression, and no bar. -/
theorem Closes.behindGap {tail : List Char} (h : Closes tail) :
    ∃ gap rest, tail = gap ++ rest ∧ Gap gap ∧ Stops opensBlank rest ∧
      (startsRule rest = true ∨ rest.takeWhile isWordChar = "uses".toList ∨
        Stops opensPrimary rest) ∧ rest.head? ≠ some '|' := by
  cases h with
  | @parenthesis gap h rest =>
    exact ⟨gap, ')' :: rest, rfl, h, Stops.cons_iff.2 rfl, .inr (.inr (Stops.cons_iff.2 rfl)), by simp⟩
  | @clause rest h =>
    have word : "uses".toList.all isWordChar = true := rfl
    exact ⟨[' '], "uses".toList ++ rest, rfl, .space, Stops.cons_iff.2 rfl,
      .inr (.inl (h.stops.takeWhile_append word)), by simp⟩
  | @line rest h =>
    have newline : Gap ['\n'] := .of_blank rfl
    rcases h with rfl | h
    · exact ⟨['\n'], [], rfl, newline, .nil, .inr (.inr .nil), by simp⟩
    · obtain ⟨c, cs, rfl, hc⟩ := head_of_startsRule h
      have bar : c ≠ '|' := ne_of_kind hc rfl
      exact ⟨['\n'], c :: cs, rfl, newline, opensBlank_of_isIdentStart hc, .inl h, by simpa using bar⟩
  | nothing => exact ⟨[], [], rfl, .nothing, .nil, .inr (.inr .nil), by simp⟩

namespace Parse

variable {limits : Limits} {inner : Parse (Option Node)} {levels : Nat} {tail : List Char}

/-! ## Groups and captures -/

/-- What is inside of groups and captures is accepted, if it nests less than `levels` deep. -/
def AcceptsWithin (limits : Limits) (levels : Nat) (inner : Parse (Option Node)) : Prop :=
  ∀ (e : Expression) (text : List Char), e.Written text → e.depth < levels → ∀ tail, Closes tail →
    Accepts limits inner text tail (Finds (·.outline = e.outline))

section

variable {e : Expression} {text gap gap' : List Char}

theorem enclosed_accepts (h : AcceptsWithin limits levels inner) (he : e.Written text)
    (hd : e.depth < levels) (hg : Gap gap) (hg' : Gap gap') (missing : Complaint) :
    Accepts limits (enclosed missing inner) (gap ++ (text ++ (gap' ++ [')']))) tail
      (Node.outlines · = [e.outline]) := by
  have closes : Closes (gap' ++ [')'] ++ tail) := by
    rw [List.append_assoc]
    exact .parenthesis hg' tail
  have body : Accepts limits (afterBlank inner) (gap ++ text) (gap' ++ [')'] ++ tail)
      (Finds (·.outline = e.outline)) :=
    (h e text he hd _ closes).afterGap hg (he.stops_blank _)
  rw [← List.append_assoc]
  apply body.bind
  rintro _ ⟨n, rfl, hn⟩
  apply (eatCharAfterGap_accepts hg' rfl).last
  rintro _ rfl
  exact .pure (Node.outlines_singleton hn)

theorem group_accepts (h : AcceptsWithin limits levels inner) (he : e.Written text)
    (hd : e.depth < levels) (hg : Gap gap) (hg' : Gap gap') :
    Accepts limits (group inner) ('(' :: (gap ++ (text ++ (gap' ++ [')'])))) tail
      (·.outline = .branch .group [e.outline]) := by
  apply cursor_accepts.look
  intro start _
  apply advance_accepts.one
  intro _ _
  apply (enclosed_accepts h he hd hg hg' _).last
  intro body hbody
  exact branchFrom_accepts hbody

/-- The opening of a named capture. -/
theorem captureOpening_accepts :
    Accepts limits (move (·.advanceBy 4)) ['(', '?', 'P', '<'] tail fun _ => True :=
  advanceBy_accepts rfl

theorem namedCapture_accepts (h : AcceptsWithin limits levels inner) (name : Identifier) (he : e.Written text)
    (hd : e.depth < levels) (hg : Gap gap) (hg' : Gap gap') :
    Accepts limits (namedCapture inner)
      ('(' :: '?' :: 'P' :: '<' :: (name.render ++ '>' :: (gap ++ (text ++ (gap' ++ [')']))))) tail
      (·.outline = .branch .namedCapture [name.outline, e.outline]) := by
  have parts : Accepts limits (captureParts inner)
      (name.render ++ '>' :: (gap ++ (text ++ (gap' ++ [')'])))) tail
      (Node.outlines · = [name.outline, e.outline]) := by
    apply ((identifier_accepts name (Stops.cons_iff.2 rfl)).orReport _).bind
    rintro _ ⟨n, rfl, hn⟩
    apply eatChar_accepts.one
    rintro _ rfl
    apply (enclosed_accepts h he hd hg hg' _).last
    intro body hbody
    refine .pure ?_
    rw [Node.outlines_cons, hn, hbody]
  apply cursor_accepts.look
  intro start _
  apply captureOpening_accepts.bind
  intro _ _
  apply parts.last
  intro ns hns
  exact branchFrom_accepts hns

end

/-! ## Primaries -/

/-- What opens neither a group nor a list match is left to the atoms. -/
theorem primary_of_atom {text : List Char} {post : Option Node → Prop}
    (parenthesis : (text ++ tail)[0]? ≠ some '(')
    (bracket : (text ++ tail)[0]? ≠ some '[' ∨ (text ++ tail)[1]? ≠ some '[')
    (h : Accepts limits atom text tail post) : Accepts limits (primary inner) text tail post := by
  apply cursor_accepts.look
  intro c hc
  rw [← hc] at parenthesis bracket
  have capture : c.checkLiteral "(?P<" = false := Cursor.checkLiteral_eq_false 0 '(' rfl parenthesis
  have group : ¬ c.peek = some '(' := by
    rw [Cursor.peek, List.head?_eq_getElem?]
    exact parenthesis
  have list : c.checkLiteral "[[" = false := by
    rcases bracket with h | h
    · exact Cursor.checkLiteral_eq_false 0 '[' rfl h
    · exact Cursor.checkLiteral_eq_false 1 '[' rfl h
  simp only [capture, if_neg group, list, Bool.false_eq_true, if_false]
  exact h

theorem atom_operand (name : Identifier) (stop : Stops isWordChar tail) :
    Accepts limits atom name.render tail (Finds (·.outline = name.outline)) := by
  have other (c : Char) (hc : isIdentStart c = false) : name.first ≠ c :=
    ne_of_kind name.first_start hc
  apply peek_accepts.look
  rintro _ rfl
  have first : (name.render ++ tail).head? = some name.first := rfl
  rw [first]
  simp only [other '\\' rfl, other '^' rfl, other '$' rfl, other '.' rfl, other '[' rfl,
    other '"' rfl, or_self, if_false]
  exact identifier_accepts name stop

theorem takeLeaf_one (kind : Kind) (c : Char) :
    Accepts limits (takeLeaf kind 1) [c] tail (·.outline = .leaf kind [c]) :=
  takeLeaf_accepts rfl

theorem atom_string (s : StringLiteral) :
    Accepts limits atom s.render tail (Finds (·.outline = s.outline)) := by
  apply peek_accepts.look
  rintro _ rfl
  simp only [StringLiteral.render, List.cons_append, List.head?_cons, Char.reduceEq, or_self, if_false,
    if_true]
  exact string_accepts s

theorem atom_escape (c : Escaped) :
    Accepts limits atom c.render tail (Finds (·.outline = c.outline)) := by
  apply peek_accepts.look
  rintro _ rfl
  simp only [Escaped.render, List.cons_append, List.head?_cons, Char.reduceEq, if_true]
  exact (escape_accepts c).someOf

theorem atom_anchor (a : Anchor) :
    Accepts limits atom a.render tail (Finds (·.outline = .leaf .anchor a.render)) := by
  apply peek_accepts.look
  rintro _ rfl
  cases a with
  | lineStart =>
    simp only [Anchor.render, List.cons_append, List.head?_cons, Char.reduceEq, true_or, if_false, if_true]
    exact (takeLeaf_one .anchor '^').someOf
  | lineEnd =>
    simp only [Anchor.render, List.cons_append, List.head?_cons, Char.reduceEq, or_true, if_false, if_true]
    exact (takeLeaf_one .anchor '$').someOf

theorem atom_dot : Accepts limits atom ['.'] tail (Finds (·.outline = .leaf .dot ['.'])) := by
  apply peek_accepts.look
  rintro _ rfl
  simp only [List.cons_append, List.head?_cons, Char.reduceEq, or_self, if_false, if_true]
  exact (takeLeaf_one .dot '.').someOf

theorem atom_charClass (c : CharClass) (h : CharClass.hyphensApart c.members = true) :
    Accepts limits atom c.render tail (Finds (·.outline = c.outline)) := by
  apply peek_accepts.look
  rintro _ rfl
  simp only [CharClass.render, List.cons_append, List.head?_cons, Char.reduceEq, or_self, if_false,
    if_true]
  exact (charClass_accepts c h).someOf

/-- An opening parenthesis behind which the body of a group stands opens no capture. -/
theorem noCapture_of_group {e : Expression} {text gap : List Char} (he : e.Written text) (hg : Gap gap)
    (rest : List Char) {c : Cursor} (hc : c.rest = '(' :: (gap ++ (text ++ rest))) :
    c.checkLiteral "(?P<" = false := by
  apply Cursor.checkLiteral_eq_false 1 '?' rfl
  have stop : Stops (· == '?') (gap ++ (text ++ rest)) := by
    refine .behindGap rfl hg fun _ => ?_
    obtain ⟨x, xs, rfl, first⟩ := he.head
    exact beq_false_of_ne (ne_of_kind first rfl)
  rw [hc, List.getElem?_cons_succ, ← List.head?_eq_getElem?]
  exact stop.head_ne rfl

theorem primary_accepts {p : Primary} {text : List Char} (h : AcceptsWithin limits levels inner)
    (hp : p.Written text) (hd : p.depth ≤ levels) (stop : runsOn p none = true → Stops isWordChar tail) :
    Accepts limits (primary inner) text tail (Finds (·.outline = p.outline)) := by
  cases hp with
  | @operand name _ =>
    have other (c : Char) (hc : isIdentStart c = false) : some name.first ≠ some c :=
      fun e => ne_of_kind name.first_start hc (Option.some.inj e)
    rw [Primary.outline]
    exact primary_of_atom (other '(' rfl) (.inl (other '[' rfl)) (atom_operand name (stop rfl))
  | string s =>
    rw [Primary.outline]
    exact primary_of_atom (by simp [StringLiteral.render]) (by simp [StringLiteral.render])
      (atom_string s)
  | escape c =>
    rw [Primary.outline]
    exact primary_of_atom (by simp [Escaped.render]) (by simp [Escaped.render]) (atom_escape c)
  | anchor a =>
    rw [Primary.outline]
    refine primary_of_atom ?_ (.inl ?_) (atom_anchor a)
    · cases a <;> simp [Anchor.render]
    · cases a <;> simp [Anchor.render]
  | dot =>
    rw [Primary.outline]
    exact primary_of_atom (by simp) (by simp) atom_dot
  | @charClass c hp =>
    rw [CharClass.unambiguous, Bool.and_eq_true, bne_iff_ne] at hp
    rw [Primary.outline]
    refine primary_of_atom (by simp [CharClass.render]) (.inr ?_) (atom_charClass c hp.1)
    cases hi : c.inside with
    | nil => simp [CharClass.render, hi]
    | cons x rest => simpa [CharClass.render, hi] using hp.2
  | @listMatch name _ _ _ _ hf hb hb' =>
    apply cursor_accepts.look
    intro c hc
    have capture : c.checkLiteral "(?P<" = false := by
      apply Cursor.checkLiteral_eq_false 0 '(' rfl
      simp [hc]
    have group : ¬ c.peek = some '(' := by simp [Cursor.peek, hc]
    have list : c.checkLiteral "[[" = true := by
      rw [Cursor.checkLiteral, hc]
      rfl
    simp only [capture, if_neg group, list, Bool.false_eq_true, if_false, if_true]
    exact (listMatch_accepts name hf hb hb').someOf
  | group he hg hg' =>
    rw [Primary.depth] at hd
    apply cursor_accepts.look
    intro c hc
    have capture : c.checkLiteral "(?P<" = false := noCapture_of_group he hg _ (by simpa using hc)
    have group : c.peek = some '(' := by simp [Cursor.peek, hc]
    simp only [capture, if_pos group, Bool.false_eq_true, if_false]
    rw [Primary.outline]
    exact (group_accepts h he hd hg hg').someOf
  | @capture name _ _ _ _ he hg hg' =>
    rw [Primary.depth] at hd
    apply cursor_accepts.look
    intro c hc
    have capture : c.checkLiteral "(?P<" = true := by
      rw [Cursor.checkLiteral, hc]
      rfl
    simp only [capture, if_true]
    rw [Primary.outline]
    exact (namedCapture_accepts h name he hd hg hg').someOf

theorem primary_declines (stop : Stops opensPrimary tail) :
    Accepts limits (primary inner) [] tail (· = none) := by
  apply primary_of_atom
  · rw [← List.head?_eq_getElem?]
    exact stop.head_ne rfl
  · rw [← List.head?_eq_getElem?]
    exact .inl (stop.head_ne rfl)
  · apply peek_accepts.look
    rintro _ rfl
    cases tail with
    | nil => exact .pure rfl
    | cons c tail =>
      have ne (d : Char) (hd : opensPrimary d = true) : c ≠ d := (ne_of_kind hd stop).symm
      simp only [List.nil_append, List.head?_cons, ne '\\' rfl, ne '^' rfl, ne '$' rfl, ne '.' rfl,
        ne '[' rfl, ne '"' rfl, or_self, if_false]
      apply identifier_declines
      exact stop.mono fun c hc => (Bool.or_eq_false_iff.1 hc).1

/-! ## Items -/

theorem atBoundary_accepts : Accepts limits atBoundary [] tail
    (· = (decide (tail.takeWhile isWordChar = "uses".toList) || startsRule tail)) := by
  apply cursor_accepts.last
  rintro c rfl
  refine .pure ?_
  have word : c.checkWord "uses" = decide (c.rest.takeWhile isWordChar = "uses".toList) := by
    rw [Bool.eq_iff_iff, Cursor.checkWord_iff rfl, decide_eq_true_iff]
  rw [Cursor.atKeyword, Cursor.atRuleStart, word]
  cases startsRule c.rest <;> simp

theorem atBoundary_primary {p : Primary} {text : List Char} (hp : p.Written text)
    (ends : runsOn p none = true → EndsWord tail) :
    Accepts limits atBoundary [] (text ++ tail) (· = false) := by
  refine atBoundary_accepts.mono ?_
  rintro _ rfl
  rw [Bool.or_eq_false_iff, decide_eq_false_iff_not]
  cases operand : runsOn p none with
  | true =>
    cases hp with
    | @operand name other =>
      have ends := ends rfl
      refine ⟨?_, startsRule_append name.all_word ends⟩
      rw [ends.stops.takeWhile_append name.all_word]
      intro h
      rw [Identifier.word, h, String.ofList_toList] at other
      exact other rfl
    | _ => cases operand
  | false =>
    have stop := hp.stops_identStart operand tail
    refine ⟨?_, startsRule_of_stops stop⟩
    obtain ⟨c, rest, rfl, -⟩ := hp.head
    intro h
    rw [List.cons_append, List.takeWhile_cons] at h
    split at h
    · rw [(List.cons.inj h).1] at stop
      cases stop
    · cases h

section

variable {p : Primary} {q : Option Quantifier} {text times gap : List Char}

theorem quantified_accepts (h : AcceptsWithin limits levels inner) (hp : p.Written text)
    (hq : OptionWritten Quantifier.Written q times) (hd : p.depth ≤ levels) (ends : EndsItem p q tail) :
    Accepts limits (quantified inner) (text ++ times) tail
      (Finds (·.outline = quantifiedOutline p.outline q)) := by
  apply cursor_accepts.look
  intro start _
  cases q with
  | none =>
    cases hq
    apply (primary_accepts h hp hd fun runs => (ends.word runs).stops).bind
    rintro _ ⟨subject, rfl, hsubject⟩
    apply (quantifier_declines ends.noQuantifier).last
    rintro _ rfl
    exact .pure ⟨subject, rfl, hsubject⟩
  | some q =>
    have stop : Stops isWordChar (times ++ tail) := by
      cases (hq : q.Written times) <;> exact Stops.cons_iff.2 rfl
    apply (primary_accepts h hp hd fun _ => stop).bind
    rintro _ ⟨subject, rfl, hsubject⟩
    apply (quantifier_accepts hq).last
    rintro _ ⟨quantifier, rfl, hquantifier⟩
    refine (branchFrom_accepts ?_).someOf
    rw [Node.outlines_cons, Node.outlines_cons, hsubject, hquantifier, Node.outlines_nil]

theorem EndsItem.quantifier (ends : EndsItem p q tail) (hq : OptionWritten Quantifier.Written q times)
    (runs : runsOn p none = true) : EndsWord (times ++ tail) := by
  cases q with
  | none =>
    cases hq
    exact ends.word runs
  | some q => cases (hq : q.Written times) <;> exact ⟨Stops.cons_iff.2 rfl, rfl⟩

theorem inside_accepts (hp : p.Written text) (hq : OptionWritten Quantifier.Written q times)
    (ends : EndsItem p q tail) : Accepts limits atBoundary [] (text ++ times ++ tail) (· = false) := by
  rw [List.append_assoc]
  exact atBoundary_primary hp (EndsItem.quantifier ends hq)

theorem item_accepts (h : AcceptsWithin limits levels inner) (hp : p.Written text)
    (hq : OptionWritten Quantifier.Written q times) (hd : p.depth ≤ levels) (ends : EndsItem p q tail) :
    Accepts limits (item inner) (text ++ times) tail
      (Finds (·.outline = quantifiedOutline p.outline q)) := by
  apply (inside_accepts hp hq ends).look
  rintro _ rfl
  exact quantified_accepts h hp hq hd ends

/-- An item behind a gap. -/
theorem nextItem_accepts (h : AcceptsWithin limits levels inner) (hp : p.Written text)
    (hq : OptionWritten Quantifier.Written q times) (hd : p.depth ≤ levels) (ends : EndsItem p q tail)
    (hg : Gap gap) : Accepts limits (afterBlank (item inner)) (gap ++ (text ++ times)) tail
      (Finds (·.outline = quantifiedOutline p.outline q)) :=
  (item_accepts h hp hq hd ends).afterGap hg ((Branch.Written.last hp hq).stops_blank tail)

end

theorem item_declines {rest : List Char} (h : startsRule rest = true ∨
    rest.takeWhile isWordChar = "uses".toList ∨ Stops opensPrimary rest) :
    Accepts limits (item inner) [] rest (· = none) := by
  apply atBoundary_accepts.look
  rintro boundary hboundary
  rw [List.nil_append] at hboundary
  cases boundary with
  | true => exact .pure rfl
  | false =>
    have nothing : Stops opensPrimary rest := by
      rcases h with h | h | h
      · rw [h, Bool.or_true] at hboundary
        cases hboundary
      · rw [h, decide_eq_true rfl, Bool.true_or] at hboundary
        cases hboundary
      · exact h
    apply cursor_accepts.look
    intro start _
    apply (primary_declines nothing).last
    rintro _ rfl
    exact .pure rfl

/-- Behind a branch there is no further item. -/
theorem noItem (ends : EndsBranch tail) :
    AcceptsMany limits (afterBlank (item inner)) [] tail (Node.outlines · = []) := by
  refine .stop ?_ Node.outlines_nil
  cases ends with
  | bar hg rest =>
    have nothing : Accepts limits (item inner) [] ('|' :: rest) (· = none) :=
      item_declines (.inr (.inr (Stops.cons_iff.2 rfl)))
    exact nothing.afterGap_none hg (Stops.cons_iff.2 rfl)
  | closes h =>
    obtain ⟨gap, rest, rfl, hg, stop, ends, -⟩ := h.behindGap
    exact (item_declines ends).afterGap_none hg stop

/-- Behind an expression there is no further branch. -/
theorem noBranch (h : Closes tail) :
    AcceptsMany limits (nextBranch inner) [] tail (Node.outlines · = []) := by
  refine .stop ?_ Node.outlines_nil
  obtain ⟨gap, rest, rfl, hg, stop, -, bar⟩ := h.behindGap
  apply (eatCharAfterGap_declines hg stop bar).last
  rintro _ rfl
  exact .pure rfl

/-! ## Branches and expressions -/

theorem joined_accepts {kind : Kind} {start : Cursor} {first : Node} {further : List Node}
    {parts : List Outline} (h : first.outline :: Node.outlines further = parts) :
    Accepts limits (joined kind start first further) [] tail (Finds (·.outline = .joined kind parts)) := by
  subst h
  cases further with
  | nil => exact .pure ⟨first, rfl, by rw [Node.outlines_nil, Outline.joined]⟩
  | cons second further =>
    rw [Node.outlines_cons]
    exact (branchFrom_accepts (by rw [Node.outlines_cons, Node.outlines_cons])).someOf

section

variable {b : Branch} {e : Expression} {text gap gap' : List Char}

/-- The items of a branch, all behind a gap. -/
theorem items_accept (h : AcceptsWithin limits levels inner) (ends : EndsBranch tail) :
    ∀ (b : Branch) {text gap : List Char}, b.Written text → b.depth ≤ levels → Gap gap →
      AcceptsMany limits (afterBlank (item inner)) (gap ++ text) tail (Node.outlines · = b.outlines)
  | .last p q, _, gap, hb, hd, hg => by
    cases hb with
    | last hp hq =>
      have read := (Branch.Written.last hp hq).ne_nil gap
      rw [Branch.depth] at hd
      rw [Branch.outlines, ← List.append_nil (gap ++ _)]
      refine (nextItem_accepts h hp hq hd (ends.endsItem p q) hg).cons read (noItem ends) ?_
      intro n ns hn hns
      rw [Node.outlines_cons, hn, hns]
  | .more p q further, _, gap, hb, hd, hg => by
    cases hb with
    | @more _ _ _ text times gap' rest hp hq hg' hf apart =>
      have read := (Branch.Written.last hp hq).ne_nil gap
      have parts : gap ++ (text ++ (times ++ (gap' ++ rest))) = (gap ++ (text ++ times)) ++ (gap' ++ rest) := by
        simp
      rw [Branch.depth] at hd
      rw [parts, Branch.outlines]
      refine (nextItem_accepts h hp hq (by omega) (hf.endsItem hg' apart tail) hg).cons read
        (items_accept h ends further hf (by omega) hg') ?_
      intro n ns hn hns
      rw [Node.outlines_cons, hn, hns]

theorem concatenation_accepts (h : AcceptsWithin limits levels inner) (hb : b.Written text)
    (hd : b.depth ≤ levels) (ends : EndsBranch tail) :
    Accepts limits (concatenation inner) text tail (Finds (·.outline = b.outline)) := by
  apply cursor_accepts.look
  intro start _
  cases hb with
  | last hp hq =>
    rw [Branch.depth] at hd
    rw [Branch.outline, Branch.outlines]
    apply (item_accepts h hp hq hd (ends.endsItem _ _)).last
    rintro _ ⟨first, rfl, hfirst⟩
    apply (noItem ends).many.last
    intro further hfurther
    exact joined_accepts (by rw [hfirst, hfurther])
  | more hp hq hg hf apart =>
    rw [Branch.depth] at hd
    rw [Branch.outline, Branch.outlines, ← List.append_assoc]
    apply (item_accepts h hp hq (by omega) (hf.endsItem hg apart tail)).bind
    rintro _ ⟨first, rfl, hfirst⟩
    apply (items_accept h ends _ hf (by omega) hg).many.last
    intro ns hns
    exact joined_accepts (by rw [hfirst, hns])

/-- A bar behind a gap. -/
theorem bar_accepts (hg : Gap gap) : Accepts limits (eatCharAfterBlank '|') (gap ++ ['|']) tail (· = true) :=
  eatCharAfterGap_accepts hg rfl

/-- A branch behind a bar. -/
theorem nextBranch_accepts (h : AcceptsWithin limits levels inner) (hb : b.Written text)
    (hd : b.depth ≤ levels) (ends : EndsBranch tail) (hg : Gap gap) (hg' : Gap gap') :
    Accepts limits (nextBranch inner) (gap ++ '|' :: (gap' ++ text)) tail (Finds (·.outline = b.outline)) := by
  have text : gap ++ '|' :: (gap' ++ text) = (gap ++ ['|']) ++ (gap' ++ text) := by simp
  rw [text]
  apply (bar_accepts hg).bind
  rintro _ rfl
  exact ((concatenation_accepts h hb hd ends).afterGap hg' (hb.stops_blank tail)).orReport _

/-- The branches of an expression, all behind a bar. -/
theorem branches_accept (h : AcceptsWithin limits levels inner) (closes : Closes tail) :
    ∀ (e : Expression) {text gap gap' : List Char}, e.Written text → e.depth ≤ levels → Gap gap → Gap gap' →
      AcceptsMany limits (nextBranch inner) (gap ++ '|' :: (gap' ++ text)) tail (Node.outlines · = e.outlines)
  | .last b, text, gap, gap', he, hd, hg, hg' => by
    cases he with
    | last hb =>
      rw [Expression.depth] at hd
      rw [Expression.outlines, ← List.append_nil (gap ++ _)]
      refine (nextBranch_accepts h hb hd (.closes closes) hg hg').cons (by simp) (noBranch closes) ?_
      intro n ns hn hns
      rw [Node.outlines_cons, hn, hns, Branch.outline]
  | .more b further, _, gap, gap', he, hd, hg, hg' => by
    cases he with
    | @more _ _ text before behind rest hb hg₁ hg₂ hf =>
      have parts : gap ++ '|' :: (gap' ++ (text ++ (before ++ '|' :: (behind ++ rest)))) =
          (gap ++ '|' :: (gap' ++ text)) ++ (before ++ '|' :: (behind ++ rest)) := by
        simp
      rw [Expression.depth] at hd
      rw [parts, Expression.outlines]
      refine (nextBranch_accepts h hb (by omega) (.bar_append hg₁ _ _) hg hg').cons (by simp)
        (branches_accept h closes further hf (by omega) hg₁ hg₂) ?_
      intro n ns hn hns
      rw [Node.outlines_cons, hn, hns, Branch.outline]

theorem alternation_accepts (h : AcceptsWithin limits levels inner) (he : e.Written text)
    (hd : e.depth ≤ levels) (closes : Closes tail) :
    Accepts limits (alternation inner) text tail (Finds (·.outline = e.outline)) := by
  apply cursor_accepts.look
  intro start _
  cases he with
  | last hb =>
    rw [Expression.depth] at hd
    rw [Expression.outline, Expression.outlines]
    apply (concatenation_accepts h hb hd (.closes closes)).last
    rintro _ ⟨first, rfl, hfirst⟩
    apply (noBranch closes).many.last
    intro further hfurther
    exact joined_accepts (by rw [hfirst, hfurther, Branch.outline])
  | more hb hg hg' hf =>
    rw [Expression.depth] at hd
    rw [Expression.outline, Expression.outlines]
    apply (concatenation_accepts h hb (by omega) (.bar_append hg _ _)).bind
    rintro _ ⟨first, rfl, hfirst⟩
    apply (branches_accept h closes _ hf (by omega) hg hg').many.last
    intro ns hns
    exact joined_accepts (by rw [hfirst, hns, Branch.outline])

/-- **Expressions are accepted as they are written**, up to the depth that is read. -/
theorem expressionWithin_accepts (levels : Nat) :
    AcceptsWithin limits levels (expressionWithin levels) := by
  induction levels with
  | zero =>
    intro e _ _ hd
    exact absurd hd (Nat.not_lt_zero _)
  | succ levels ih =>
    intro e text he hd tail closes
    exact alternation_accepts ih he (Nat.le_of_lt_succ hd) closes

theorem expression_accepts (he : e.Written text) (hd : e.depth < limits.depth) (closes : Closes tail) :
    Accepts limits expression text tail (Finds (·.outline = e.outline)) :=
  expressionWithin_accepts limits.depth e text he hd tail closes

end

end Parse

end PatternRules

import PatternRules.Proofs.Accepts

/-!
Atoms, list matches and quantifiers are accepted as they are written. They contain no expressions, so
nothing has to be known about any other part of the parser.
-/

namespace PatternRules

/-- Characters that start a quantifier. -/
def opensQuantifier (c : Char) : Bool := c == '?' || c == '{'

namespace Abstract

/-- No member starts like the end of a class. -/
theorem ClassChar.render_head (c : ClassChar) :
    ∃ x rest, c.render = x :: rest ∧ x ≠ ']' ∧ x ≠ '\n' := by
  cases c with
  | plain c => exact ⟨c.1, [], rfl, c.2.1, c.2.2.2⟩
  | escaped c => exact ⟨'\\', [c.1], rfl, by decide, by decide⟩

theorem ClassMember.render_head (m : ClassMember) :
    ∃ x rest, m.render = x :: rest ∧ x ≠ ']' ∧ x ≠ '\n' := by
  cases m with
  | single c => exact c.render_head
  | range low high =>
    obtain ⟨x, rest, hx, h⟩ := low.render_head
    exact ⟨x, _, by rw [ClassMember.render, hx, List.cons_append], h⟩

theorem Number.Written.stops_inlineBlank {n : Number} {text : List Char} (h : n.Written text)
    (rest : List Char) : Stops isInlineBlank (text ++ rest) := by
  obtain ⟨nonempty, digits, -⟩ := h
  cases text with
  | nil => exact absurd rfl nonempty
  | cons c text =>
    rw [List.all_cons, Bool.and_eq_true] at digits
    exact isInlineBlank_of_opensBlank (opensBlank_of_kind rfl digits.1)

theorem Identifier.stops_inlineBlank (i : Identifier) (rest : List Char) :
    Stops isInlineBlank (i.render ++ rest) :=
  isInlineBlank_of_opensBlank (opensBlank_of_isIdentStart i.first_start)

end Abstract

namespace Parse

open Abstract

variable {limits : Limits} {tail : List Char}

/-! ## Atoms -/

theorem escape_accepts (c : Escaped) :
    Accepts limits escape c.render tail (·.outline = c.outline) := by
  intro s hs room
  have peek : s.cursor.advance.peek = some c.1 := by
    rw [Cursor.peek, Cursor.rest_advance, hs]
    rfl
  have onLine : ¬ (c.1 = '\n' ∨ c.1 = '\r') := not_or.2 c.2
  simp only [escape, ensures_bind, ensures_cursor, ensures_move, ensures_peek, peek, if_neg onLine,
    ensures_textNodeFrom]
  have text : s.cursor.advance.advance.textSince s.cursor = c.render := ParseState.textSince_past hs
  rw [text]
  exact ⟨rfl, Node.outline_leaf ..⟩

theorem classChar_accepts (c : ClassChar) :
    Accepts limits classChar c.render tail (·.outline = c.outline) := by
  apply peek_accepts.look
  rintro _ rfl
  cases c with
  | plain c =>
    have first : ((ClassChar.plain c).render ++ tail).head? = some c.1 := rfl
    simp only [first, if_neg c.2.2.1]
    exact takeLeaf_accepts rfl
  | escaped c =>
    exact escape_accepts c

theorem atRangeHyphen_accepts : Accepts limits atRangeHyphen [] tail
    (· = (decide (tail.head? = some '-') &&
      tail[1]?.any fun next => next != ']' && next != '\n')) := by
  apply cursor_accepts.last
  rintro c rfl
  exact .pure rfl

theorem classItem_single (c : ClassChar)
    (h : (tail.head? = some '-' && tail[1]?.any fun next => next != ']' && next != '\n') = false) :
    Accepts limits classItem (ClassMember.single c).render tail
      (·.outline = (ClassMember.single c).outline) := by
  apply cursor_accepts.look
  intro start _
  apply (classChar_accepts c).last
  intro low hlow
  apply atRangeHyphen_accepts.look
  rintro _ rfl
  rw [List.nil_append, h]
  exact .pure hlow

theorem classItem_range (low high : ClassChar) :
    Accepts limits classItem (ClassMember.range low high).render tail
      (·.outline = (ClassMember.range low high).outline) := by
  intro s hs room
  have front := hs
  rw [ClassMember.render, List.append_assoc] at front
  have upper : Accepts limits (do move Cursor.advance; classChar) ('-' :: high.render) tail
      (·.outline = high.outline) :=
    advance_accepts.one fun _ _ => classChar_accepts high
  simp only [classItem, ensures_bind, ensures_cursor]
  refine (classChar_accepts low s front room).mono ?_
  rintro l t ⟨rfl, hl⟩
  refine (atRangeHyphen_accepts _ (ParseState.rest_past front) room).mono ?_
  rintro hyphen t ⟨rfl, hhyphen⟩
  obtain ⟨x, rest, hx, bracket, newline⟩ := high.render_head
  have isRange : hyphen = true := by
    rw [hhyphen, hx]
    simp [bracket, newline]
  rw [isRange, if_pos rfl]
  rw [← bind_assoc]
  apply (upper _ (ParseState.rest_past front) room).bind
  rintro h t ⟨rfl, hh⟩
  have state : (s.past low.render.length).past ('-' :: high.render).length =
      s.past (ClassMember.range low high).render.length := by
    rw [ParseState.past_past, ClassMember.render, List.length_append]
  rw [ensures_textNodeFrom, state, ParseState.textSince_past hs, Node.outline_mk]
  exact ⟨rfl, by rw [Node.outlines_cons, Node.outlines_cons, Node.outlines_nil, hl, hh]; rfl⟩

theorem nextClassItem_of_classItem {m : ClassMember}
    (h : Accepts limits classItem m.render tail (·.outline = m.outline)) :
    Accepts limits nextClassItem m.render tail (Finds (·.outline = m.outline)) := by
  apply peek_accepts.look
  obtain ⟨x, rest, hx, bracket, newline⟩ := m.render_head
  rintro _ rfl
  rw [hx, List.cons_append, List.head?_cons, ← hx]
  simp only [if_neg newline, if_neg bracket]
  exact h.someOf

theorem nextClassItem_bracket : Accepts limits nextClassItem [']'] tail (· = none) := by
  apply peek_accepts.look
  rintro _ rfl
  apply advance_accepts.last
  rintro _ -
  exact .pure rfl

/-- The members of a class are read one by one, up to its closing bracket. -/
theorem classMembers_accepts (members : List ClassMember)
    (h : CharClass.hyphensApart members = true) :
    AcceptsMany limits nextClassItem (members.flatMap ClassMember.render ++ [']']) tail
      (Node.outlines · = members.map ClassMember.outline) := by
  induction members with
  | nil => exact .stop nextClassItem_bracket Node.outlines_nil
  | cons m members ih =>
    have join (n : Node) (ns : List Node) (hn : n.outline = m.outline)
        (hns : Node.outlines ns = members.map ClassMember.outline) :
        Node.outlines (n :: ns) = (m :: members).map ClassMember.outline := by
      rw [Node.outlines_cons, hn, hns, List.map_cons]
    have read : m.render ≠ [] := by
      obtain ⟨x, rest, hx, -⟩ := m.render_head
      rw [hx]
      exact List.cons_ne_nil _ _
    rw [List.flatMap_cons, List.append_assoc]
    cases m with
    | range low high =>
      exact (nextClassItem_of_classItem (classItem_range low high)).cons read (ih h) join
    | single c =>
      rw [CharClass.hyphensApart, Bool.and_eq_true, Bool.or_eq_true, bne_iff_ne, beq_iff_eq] at h
      refine (nextClassItem_of_classItem (classItem_single c ?_)).cons read (ih h.2) join
      -- what comes next is no hyphen, or one in front of the closing bracket
      rcases h.1 with h | h
      · cases hnext : members.flatMap ClassMember.render with
        | nil => simp
        | cons x rest =>
          rw [hnext, List.head?_cons] at h
          have other : x ≠ '-' := fun e => h (congrArg some e)
          simp [other]
      · simp [h]

theorem charClass_accepts (c : CharClass) (h : CharClass.hyphensApart c.members = true) :
    Accepts limits charClass c.render tail (·.outline = c.outline) := by
  have read : Accepts limits (do move Cursor.advance; many nextClassItem) c.render tail
      (Node.outlines · = c.members.map ClassMember.outline) :=
    advance_accepts.one fun _ _ => (classMembers_accepts c.members h).many
  simp only [charClass, CharClass.outline]
  simpa only [bind_assoc] using textNode_accepts .charClass read

/-! ## List matches -/

theorem filterArgument_accepts (argument : StringLiteral) {inner inner' : List Char}
    (hi : inner.all isInlineBlank = true) (hi' : inner'.all isInlineBlank = true) :
    Accepts limits filterArgument (inner ++ (argument.render ++ (inner' ++ [')']))) tail
      (Node.outlines · = [argument.outline]) := by
  apply Accepts.overInlineBlank hi (Stops.cons_iff.2 rfl)
  apply ((string_accepts argument).orReport _).bind
  rintro _ ⟨n, rfl, hn⟩
  apply Accepts.overInlineBlank hi' (Stops.cons_iff.2 rfl)
  apply eatChar_accepts.last
  rintro _ rfl
  exact .pure (Node.outlines_singleton hn)

theorem filter_accepts (f : Filter) {inner inner' : List Char} (hi : inner.all isInlineBlank = true)
    (hi' : inner'.all isInlineBlank = true) :
    Accepts limits filter (f.name.render ++ '(' :: (inner ++ (f.argument.render ++ (inner' ++ [')'])))) tail
      (Finds (·.outline = f.outline)) := by
  apply cursor_accepts.look
  intro start _
  apply ((identifier_accepts f.name (Stops.cons_iff.2 rfl)).orReport _).bind
  rintro _ ⟨name, rfl, hname⟩
  apply eatChar_accepts.one
  rintro _ rfl
  apply (filterArgument_accepts f.argument hi hi').last
  intro argument hargument
  exact (branchFrom_accepts (by rw [Node.outlines_cons, hname, hargument])).someOf

theorem listFilter_accepts {f : Option Filter} {text : List Char} (h : OptionWritten Filter.Written f text) :
    Accepts limits listFilter text (']' :: tail) (Node.outlines · = f.toList.map Filter.outline) := by
  cases f with
  | none =>
    cases h
    apply (eatChar_declines (by simp)).last
    rintro _ rfl
    exact .pure Node.outlines_nil
  | some f =>
    obtain @⟨blank, blank', inner, inner', hb, hb', hi, hi'⟩ := h
    have text : f.name.render ++ '(' :: (inner ++ (f.argument.render ++ (inner' ++ ')' :: blank'))) =
        (f.name.render ++ '(' :: (inner ++ (f.argument.render ++ (inner' ++ [')'])))) ++ blank' := by simp
    rw [text]
    apply eatChar_accepts.one
    rintro _ rfl
    apply Accepts.overInlineBlank hb
    · rw [List.append_assoc, List.append_assoc]
      exact f.name.stops_inlineBlank _
    apply (filter_accepts f hi hi').bind
    rintro _ ⟨n, rfl, hn⟩
    apply (skipInlineBlank_accepts hb' (Stops.cons_iff.2 rfl)).last
    rintro _ -
    exact .pure (Node.outlines_singleton hn)

/-- In front of the closing brackets there is a colon or nothing. -/
theorem stops_listFilter {p : Char → Bool} (excluded : [':', ']'].any p = false) {f : Option Filter}
    {text : List Char} (h : OptionWritten Filter.Written f text) (rest : List Char) :
    Stops p (text ++ [']', ']'] ++ rest) := by
  rw [List.any_eq_false] at excluded
  cases f with
  | none =>
    cases h
    exact Bool.eq_false_iff.2 (excluded ']' (by simp))
  | some f =>
    obtain ⟨-, -, -, -⟩ := h
    exact Bool.eq_false_iff.2 (excluded ':' (by simp))

theorem listMatch_accepts (name : Identifier) {f : Option Filter} {text blank blank' : List Char}
    (h : OptionWritten Filter.Written f text) (hb : blank.all isInlineBlank = true)
    (hb' : blank'.all isInlineBlank = true) :
    Accepts limits listMatch
      ('[' :: '[' :: (blank ++ (name.render ++ (blank' ++ (text ++ [']', ']']))))) tail
      (·.outline = (Primary.listMatch name f).outline) := by
  have stop : Stops isWordChar (blank' ++ (text ++ [']', ']']) ++ tail) := by
    rw [List.append_assoc]
    exact .behindGap rfl (.of_inlineBlank hb') fun _ => stops_listFilter rfl h tail
  rw [Primary.outline]
  apply cursor_accepts.look
  intro start _
  show Accepts limits _ (['[', '['] ++ _) tail _
  apply (advanceBy_accepts rfl).bind
  intro _ _
  apply Accepts.overInlineBlank hb
  · rw [List.append_assoc]
    exact name.stops_inlineBlank _
  apply ((identifier_accepts name stop).orReport _).bind
  rintro _ ⟨n, rfl, hn⟩
  apply Accepts.overInlineBlank hb' (stops_listFilter rfl h tail)
  apply (listFilter_accepts h).bind
  intro filter hfilter
  apply (eatLiteral_accepts "]]").last
  rintro _ rfl
  exact branchFrom_accepts (by rw [Node.outlines_cons, hn, hfilter])

/-! ## Quantifiers -/

/-- A number ends at the blanks behind it, or at what stands behind those. -/
theorem stops_digit {blank : List Char} (h : blank.all isInlineBlank = true) {c : Char}
    (hc : c.isDigit = false) (rest : List Char) : Stops Char.isDigit (blank ++ c :: rest ++ tail) := by
  rw [List.append_assoc]
  exact .behindGap rfl (.of_inlineBlank h) fun _ => hc

theorem upperBound_accepts {most : Option Number} {text : List Char}
    (h : OptionWritten Number.Written most text) (stop : Stops Char.isDigit tail) :
    Accepts limits number text tail (Node.outlines ·.toList = most.toList.map Number.outline) := by
  cases most with
  | none =>
    cases h
    refine (number_declines stop).mono ?_
    rintro _ rfl
    exact Node.outlines_nil
  | some most =>
    refine (number_accepts h stop).mono ?_
    rintro _ ⟨n, rfl, hn⟩
    exact Node.outlines_singleton hn

theorem quantifierBounds_range {start : Cursor} {least : Node} {lower : Outline} (h : least.outline = lower)
    {most : Option Number} {text blank inner inner' : List Char} (hm : OptionWritten Number.Written most text)
    (hb : blank.all isInlineBlank = true) (hi : inner.all isInlineBlank = true)
    (hi' : inner'.all isInlineBlank = true) (front : Stops isInlineBlank (text ++ (inner' ++ ['}']) ++ tail)) :
    Accepts limits (quantifierBounds start least) (blank ++ ',' :: (inner ++ (text ++ (inner' ++ ['}'])))) tail
      (·.outline = .branch .range (lower :: most.toList.map Number.outline)) := by
  apply Accepts.overInlineBlank hb (Stops.cons_iff.2 rfl)
  apply eatChar_accepts.one
  rintro _ rfl
  apply Accepts.overInlineBlank hi front
  apply (upperBound_accepts hm (stops_digit hi' rfl [])).bind
  intro upper hupper
  rw [pure_bind]
  apply Accepts.overInlineBlank hi' (Stops.cons_iff.2 rfl)
  apply eatChar_accepts.last
  rintro _ rfl
  exact branchFrom_accepts (by rw [Node.outlines_cons, h, hupper])

theorem quantifierBounds_exact {start : Cursor} {least : Node} {lower : Outline} (h : least.outline = lower)
    {blank : List Char} (hb : blank.all isInlineBlank = true) :
    Accepts limits (quantifierBounds start least) (blank ++ ['}']) tail
      (·.outline = .branch .exactRange [lower]) := by
  apply Accepts.overInlineBlank hb (Stops.cons_iff.2 rfl)
  apply (eatChar_declines (by simp)).look
  rintro _ rfl
  simp only [Bool.false_eq_true, if_false, pure_bind]
  show Accepts limits _ ([] ++ ['}']) tail _
  apply Accepts.overInlineBlank rfl (Stops.cons_iff.2 rfl)
  apply eatChar_accepts.last
  rintro _ rfl
  exact branchFrom_accepts (Node.outlines_singleton h)

/-- A brace, a number and what follows it. -/
theorem quantifier_braces {n : Number} {digits blank bounds : List Char} {meaning : Outline}
    (hn : n.Written digits) (hb : blank.all isInlineBlank = true) (stop : Stops Char.isDigit (bounds ++ tail))
    (h : ∀ start least, least.outline = n.outline →
      Accepts limits (quantifierBounds start least) bounds tail (·.outline = meaning)) :
    Accepts limits quantifier ('{' :: (blank ++ (digits ++ bounds))) tail (Finds (·.outline = meaning)) := by
  apply cursor_accepts.look
  intro start _
  apply (eatChar_declines (by simp)).look
  rintro _ rfl
  apply eatChar_accepts.one
  rintro _ rfl
  apply Accepts.overInlineBlank hb (by rw [List.append_assoc]; exact hn.stops_inlineBlank _)
  apply (number_accepts hn stop).bind
  rintro _ ⟨least, rfl, hleast⟩
  exact (h start least hleast).someOf

theorem quantifier_accepts {q : Quantifier} {text : List Char} (h : q.Written text) :
    Accepts limits quantifier text tail (Finds (·.outline = q.outline)) := by
  cases h with
  | optional =>
    apply cursor_accepts.look
    intro start _
    apply eatChar_accepts.last
    rintro _ rfl
    exact (branchFrom_accepts Node.outlines_nil).someOf
  | exactly h hb hb' =>
    exact quantifier_braces h hb (stops_digit hb' rfl _) fun _ _ least => quantifierBounds_exact least hb'
  | @atLeast n _ _ _ _ h hb hb' hi =>
    have none : OptionWritten Number.Written none [] := rfl
    refine quantifier_braces h hb (stops_digit hb' rfl _) fun _ _ least => ?_
    exact @quantifierBounds_range limits tail _ _ _ least _ _ _ _ [] none hb' hi rfl (Stops.cons_iff.2 rfl)
  | @between _ most _ _ _ _ _ _ h h' hb hb' hi hi' =>
    have some : OptionWritten Number.Written (some most) _ := h'
    refine quantifier_braces h hb (stops_digit hb' rfl _) fun _ _ least => ?_
    refine quantifierBounds_range least some hb' hi hi' ?_
    rw [List.append_assoc]
    exact h'.stops_inlineBlank _

theorem quantifier_declines (stop : Stops opensQuantifier tail) :
    Accepts limits quantifier [] tail (· = none) := by
  apply cursor_accepts.look
  intro start _
  apply (eatChar_declines (stop.head_ne rfl)).look
  rintro _ rfl
  apply (eatChar_declines (stop.head_ne rfl)).look
  rintro _ rfl
  exact .pure rfl

end Parse

end PatternRules

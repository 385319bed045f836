import PatternRules.Proofs.Abstract

/-!
The texts of expressions. An expression may be laid out in many ways: blanks and comments stand between its
items, around its bars and inside its parentheses, blanks of the line inside its quantifiers and list matches,
and zeros in front of its numbers. `Expression.Written` relates an expression to each of its texts. One of
them is its rendering, if that is read as it was meant (`Expression.written_render`).
-/

namespace PatternRules

/-- Blanks and comments. -/
inductive Gap : List Char → Prop
  | nothing : Gap []
  | blank {c : Char} {gap : List Char} (h : isBlank c = true) (further : Gap gap) : Gap (c :: gap)
  | comment {line gap : List Char} (h : '\n' ∉ line) (further : Gap gap) : Gap ('#' :: (line ++ '\n' :: gap))

namespace Gap

theorem of_blank {gap : List Char} (h : gap.all isBlank = true) : Gap gap := by
  induction gap with
  | nil => exact .nothing
  | cons c gap ih =>
    rw [List.all_cons, Bool.and_eq_true] at h
    exact .blank h.1 (ih h.2)

theorem of_inlineBlank {gap : List Char} (h : gap.all isInlineBlank = true) : Gap gap := by
  refine of_blank (List.all_eq_true.2 fun c hc => ?_)
  rw [isBlank, List.all_eq_true.1 h c hc]
  rfl

theorem space : Gap [' '] := of_blank rfl

end Gap

namespace Abstract

/-- What is written where something may be missing. -/
def OptionWritten {α : Type} (Written : α → List Char → Prop) (o : Option α) (text : List Char) : Prop :=
  o.elim (text = []) (Written · text)

/-- Digits of a number, perhaps with zeros in front. -/
structure Number.Written (n : Number) (text : List Char) : Prop where
  nonempty : text ≠ []
  digits : text.all Char.isDigit = true
  value : decimalValue text = n.1

/-- How quantifiers are written. -/
inductive Quantifier.Written : Quantifier → List Char → Prop
  | optional : Written .optional ['?']
  | exactly {n : Number} {digits blank blank' : List Char} (h : n.Written digits)
      (hb : blank.all isInlineBlank = true) (hb' : blank'.all isInlineBlank = true) :
      Written (.exactly n) ('{' :: (blank ++ (digits ++ (blank' ++ ['}']))))
  | atLeast {n : Number} {digits blank blank' inner : List Char} (h : n.Written digits)
      (hb : blank.all isInlineBlank = true) (hb' : blank'.all isInlineBlank = true)
      (hi : inner.all isInlineBlank = true) :
      Written (.atLeast n) ('{' :: (blank ++ (digits ++ (blank' ++ ',' :: (inner ++ ['}'])))))
  | between {least most : Number} {digits digits' blank blank' inner inner' : List Char}
      (h : least.Written digits) (h' : most.Written digits') (hb : blank.all isInlineBlank = true)
      (hb' : blank'.all isInlineBlank = true) (hi : inner.all isInlineBlank = true)
      (hi' : inner'.all isInlineBlank = true) :
      Written (.between least most)
        ('{' :: (blank ++ (digits ++ (blank' ++ ',' :: (inner ++ (digits' ++ (inner' ++ ['}'])))))))

/-- How the filter of a list match is written, the colon included. -/
inductive Filter.Written (f : Filter) : List Char → Prop
  | intro {blank blank' inner inner' : List Char} (hb : blank.all isInlineBlank = true)
      (hb' : blank'.all isInlineBlank = true) (hi : inner.all isInlineBlank = true)
      (hi' : inner'.all isInlineBlank = true) :
      Filter.Written f (':' :: (blank ++ (f.name.render ++
        '(' :: (inner ++ (f.argument.render ++ (inner' ++ ')' :: blank'))))))

/-- Whether characters of words behind an item are read as part of it. -/
def runsOn : Primary → Option Quantifier → Bool
  | .operand _, none => true
  | _, _ => false

mutual

/-- How primaries are written. -/
inductive Primary.Written : Primary → List Char → Prop
  | operand {name : Identifier} (h : name.word ≠ "uses") : Primary.Written (.operand name) name.render
  | string (s : StringLiteral) : Primary.Written (.string s) s.render
  | escape (c : Escaped) : Primary.Written (.escape c) c.render
  | anchor (a : Anchor) : Primary.Written (.anchor a) a.render
  | dot : Primary.Written .dot ['.']
  | charClass {c : CharClass} (h : c.unambiguous = true) : Primary.Written (.charClass c) c.render
  | listMatch {name : Identifier} {filter : Option Filter} {text blank blank' : List Char}
      (h : OptionWritten Filter.Written filter text) (hb : blank.all isInlineBlank = true)
      (hb' : blank'.all isInlineBlank = true) : Primary.Written (.listMatch name filter)
        ('[' :: '[' :: (blank ++ (name.render ++ (blank' ++ (text ++ [']', ']'])))))
  | group {body : Expression} {text gap gap' : List Char} (h : Expression.Written body text) (hg : Gap gap)
      (hg' : Gap gap') : Primary.Written (.group body) ('(' :: (gap ++ (text ++ (gap' ++ [')']))))
  | capture {name : Identifier} {body : Expression} {text gap gap' : List Char}
      (h : Expression.Written body text) (hg : Gap gap) (hg' : Gap gap') :
      Primary.Written (.capture name body)
        ('(' :: '?' :: 'P' :: '<' :: (name.render ++ '>' :: (gap ++ (text ++ (gap' ++ [')'])))))

/-- How branches are written. Between a name and a word there is at least a blank. -/
inductive Branch.Written : Branch → List Char → Prop
  | last {p : Primary} {q : Option Quantifier} {text times : List Char} (hp : Primary.Written p text)
      (hq : OptionWritten Quantifier.Written q times) : Branch.Written (.last p q) (text ++ times)
  | more {p : Primary} {q : Option Quantifier} {further : Branch} {text times gap rest : List Char}
      (hp : Primary.Written p text) (hq : OptionWritten Quantifier.Written q times) (hg : Gap gap)
      (hf : Branch.Written further rest)
      (apart : runsOn p q = true → gap = [] → rest.head?.any isWordChar = false) :
      Branch.Written (.more p q further) (text ++ (times ++ (gap ++ rest)))

/-- How expressions are written. -/
inductive Expression.Written : Expression → List Char → Prop
  | last {b : Branch} {text : List Char} (hb : Branch.Written b text) : Expression.Written (.last b) text
  | more {b : Branch} {further : Expression} {text gap gap' rest : List Char} (hb : Branch.Written b text)
      (hg : Gap gap) (hg' : Gap gap') (hf : Expression.Written further rest) :
      Expression.Written (.more b further) (text ++ (gap ++ '|' :: (gap' ++ rest)))

end

/-! ## Renderings -/

theorem Number.written_render (n : Number) : n.Written n.render where
  nonempty := Nat.toDigits_ne_nil
  digits := by
    rw [List.all_eq_true]
    intro c hc
    exact Nat.isDigit_of_mem_toDigits (by decide) (by decide) hc
  value := Nat.ofDigitChars_ten_toDigits

theorem Quantifier.written_render (q : Quantifier) : q.Written q.render := by
  cases q with
  | optional => exact .optional
  | exactly n =>
    show Written _ ('{' :: ([] ++ (n.render ++ ([] ++ ['}']))))
    exact .exactly n.written_render rfl rfl
  | atLeast n =>
    show Written _ ('{' :: ([] ++ (n.render ++ ([] ++ ',' :: ([] ++ ['}'])))))
    exact .atLeast n.written_render rfl rfl rfl
  | between least most =>
    show Written _ ('{' :: ([] ++ (least.render ++ ([] ++ ',' :: ([] ++ (most.render ++ ([] ++ ['}'])))))))
    exact .between least.written_render most.written_render rfl rfl rfl rfl

theorem Filter.written_render (f : Filter) : f.Written (':' :: f.render) := by
  show f.Written (':' :: ([] ++ (f.name.render ++ '(' :: ([] ++ (f.argument.render ++ ([] ++ ')' :: []))))))
  exact .intro rfl rfl rfl rfl

theorem optionWritten_render (q : Option Quantifier) :
    OptionWritten Quantifier.Written q (q.elim [] Quantifier.render) := by
  cases q with
  | none => exact rfl
  | some q => exact q.written_render

mutual

theorem Primary.written_render : (p : Primary) → p.unambiguous = true → p.Written p.render
  | .operand name, h => by
    rw [Primary.unambiguous, bne_iff_ne] at h
    rw [Primary.render]
    exact .operand h
  | .string s, _ => by
    rw [Primary.render]
    exact .string s
  | .escape c, _ => by
    rw [Primary.render]
    exact .escape c
  | .anchor a, _ => by
    rw [Primary.render]
    exact .anchor a
  | .dot, _ => by
    rw [Primary.render]
    exact .dot
  | .charClass c, h => by
    rw [Primary.unambiguous] at h
    rw [Primary.render]
    exact .charClass h
  | .listMatch name filter, _ => by
    have written : OptionWritten Filter.Written filter (filter.elim [] (':' :: ·.render)) := by
      cases filter with
      | none => exact rfl
      | some f => exact f.written_render
    rw [Primary.render]
    show Primary.Written _ ('[' :: '[' :: ([] ++ (name.render ++ ([] ++ (_ ++ [']', ']'])))))
    exact .listMatch written rfl rfl
  | .group body, h => by
    rw [Primary.unambiguous] at h
    rw [Primary.render]
    show Primary.Written _ ('(' :: ([] ++ (body.render ++ ([] ++ [')']))))
    exact .group (body.written_render h) .nothing .nothing
  | .capture name body, h => by
    rw [Primary.unambiguous] at h
    rw [Primary.render]
    show Primary.Written _
      ('(' :: '?' :: 'P' :: '<' :: (name.render ++ '>' :: ([] ++ (body.render ++ ([] ++ [')'])))))
    exact .capture (body.written_render h) .nothing .nothing

theorem Branch.written_render : (b : Branch) → b.unambiguous = true → b.Written b.render
  | .last p q, h => by
    rw [Branch.unambiguous] at h
    rw [Branch.render]
    exact .last (p.written_render h) (optionWritten_render q)
  | .more p q further, h => by
    rw [Branch.unambiguous, Bool.and_eq_true] at h
    rw [Branch.render]
    exact .more (p.written_render h.1) (optionWritten_render q) .space (further.written_render h.2)
      fun _ none => absurd none (List.cons_ne_nil _ _)

/-- **An expression may be written as it is rendered**, if that is read as it was meant. -/
theorem Expression.written_render : (e : Expression) → e.unambiguous = true → e.Written e.render
  | .last b, h => by
    rw [Expression.unambiguous] at h
    rw [Expression.render]
    exact .last (b.written_render h)
  | .more b further, h => by
    rw [Expression.unambiguous, Bool.and_eq_true] at h
    rw [Expression.render]
    exact .more (b.written_render h.1) .space .space (further.written_render h.2)

end

end Abstract

end PatternRules

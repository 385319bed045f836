import Mathlib.Order.Bounds.Basic
import PatternRules.Proofs.Recognition

/-!
Where reading goes on behind an error. A rule is seen from a place of a text (`RuleSeenAt`) if the place is the
first visible one of its line and a rule starts there. Recovery leaves its line, and then skips blanks,
comments and whole lines by turns; what it skips `Hides` no place of that sort.

* `inMargin_snoc`: whether nothing but blanks has been read of a line, one character at a time;
* `blankRun_hides`, `line_hides`: what one round of the search skips;
* `Cursor.SeeksRule.uncovers`: what the search skips, by induction on its rounds;
* `Cursor.seekRule_seeks`: the search comes to an end by itself, and not because its rounds are counted;
* `Parse.synchronize_isLeast`: recovery ends at the first place behind its line from which a rule is seen.
-/

namespace PatternRules

/-! ## The margin of a line -/

/-- Blanks that may stand in front of the first visible character of a line. -/
def isMarginBlank (c : Char) : Bool := isInlineBlank c || c == '\r'

/-- Nothing but blanks stands behind the last newline. -/
def InMargin (front : List Char) : Prop :=
  ∃ above margin, front = above ++ margin ∧ (above = [] ∨ above.getLast? = some '\n') ∧
    margin.all isMarginBlank = true

theorem inMargin_snoc {front : List Char} {c : Char} :
    InMargin (front ++ [c]) ↔ c = '\n' ∨ isMarginBlank c = true ∧ InMargin front := by
  constructor
  · rintro ⟨above, margin, whole, start, blanks⟩
    rcases List.eq_nil_or_concat margin with rfl | ⟨more, d, rfl⟩
    · rw [List.append_nil] at whole
      subst whole
      exact .inl (by simpa using start)
    · rw [List.concat_eq_append, ← List.append_assoc] at whole
      obtain ⟨rfl, same⟩ := List.append_inj' whole rfl
      obtain rfl : c = d := by simpa using same
      simp only [List.concat_eq_append, List.all_append, List.all_cons, List.all_nil, Bool.and_true,
        Bool.and_eq_true] at blanks
      exact .inr ⟨blanks.2, above, more, rfl, start, blanks.1⟩
  · rintro (rfl | ⟨blank, above, margin, rfl, start, blanks⟩)
    · exact ⟨front ++ ['\n'], [], by simp, .inr (by simp), rfl⟩
    · exact ⟨above, margin ++ [c], by simp, start, by simp [blanks, blank]⟩

/-- Behind something visible the rest of a line is out of its margin. -/
theorem not_inMargin_append {front more : List Char} (h : ¬ InMargin front) (inLine : '\n' ∉ more) :
    ¬ InMargin (front ++ more) := by
  induction more generalizing front with
  | nil => rwa [List.append_nil]
  | cons c more ih =>
    rw [List.mem_cons, not_or] at inLine
    rw [List.append_cons]
    refine ih ?_ fun mem => inLine.2 mem
    rw [inMargin_snoc]
    rintro (rfl | ⟨-, margin⟩)
    · exact inLine.1 rfl
    · exact h margin

/-! ## Places from which a rule is seen -/

/-- Between `front` and `rest` a rule is seen: it starts there, and it is the first that can be seen of its
line. -/
structure RuleBetween (front rest : List Char) : Prop where
  margin : InMargin front
  rule : startsRule rest = true

/-- A rule is seen from the place `i` of a text. -/
def RuleSeenAt (text : List Char) (i : Nat) : Prop := RuleBetween (text.take i) (text.drop i)

/-- From none of the first `n` places of `rest` a rule is seen. -/
def Hides (front rest : List Char) (n : Nat) : Prop :=
  ∀ k < n, ¬ RuleBetween (front ++ rest.take k) (rest.drop k)

namespace Hides

variable {front rest : List Char} {m n : Nat}

theorem zero : Hides front rest 0 := fun k below => absurd below (Nat.not_lt_zero k)

/-- One place more at the front. -/
theorem cons {c : Char} (here : ¬ RuleBetween front (c :: rest)) (h : Hides (front ++ [c]) rest n) :
    Hides front (c :: rest) (n + 1) := by
  intro k below
  cases k with
  | zero => simpa using here
  | succ k =>
    rw [List.take_succ_cons, List.drop_succ_cons, List.append_cons]
    exact h k (Nat.lt_of_succ_lt_succ below)

theorem add (h : Hides front rest m) (h' : Hides (front ++ rest.take m) (rest.drop m) n) :
    Hides front rest (m + n) := by
  intro k below
  rcases Nat.lt_or_ge k m with before | behind
  · exact h k before
  · obtain ⟨j, rfl⟩ := Nat.exists_eq_add_of_le behind
    rw [List.take_add, ← List.append_assoc, ← List.drop_drop]
    exact h' j (by omega)

end Hides

theorem not_startsRule_cons {c : Char} {rest : List Char} (h : isIdentStart c = false) :
    startsRule (c :: rest) = false := by
  rw [startsRule, List.head?_cons, Option.any_some, h, Bool.false_and]

/-! ## What a round skips -/

/-- **Blanks and comments hide no rule**, and behind them is the margin of a line, or the end of the text. By
induction on the text: outside of comments all that was read is margin, and inside it is not. -/
theorem blankRun_hides {front : List Char} (comment : Bool) (rest : List Char)
    (margin : InMargin front ↔ comment = false) :
    Hides front rest (blankRun comment rest) ∧
      (rest.drop (blankRun comment rest) = [] ∨ InMargin (front ++ rest.take (blankRun comment rest))) := by
  induction rest generalizing comment front with
  | nil => exact ⟨.zero, .inl rfl⟩
  | cons c rest ih =>
    -- What is skipped is not the start of a rule, and what was read up to it says which way to go on.
    have skip (next : Bool) (here : ¬ RuleBetween front (c :: rest))
        (margin' : InMargin (front ++ [c]) ↔ next = false) :
        Hides front (c :: rest) (blankRun next rest + 1) ∧
          ((c :: rest).drop (blankRun next rest + 1) = [] ∨
            InMargin (front ++ (c :: rest).take (blankRun next rest + 1))) := by
      obtain ⟨hides, ends⟩ := ih next margin'
      rw [List.drop_succ_cons, List.take_succ_cons, List.append_cons]
      exact ⟨hides.cons here, ends⟩
    have invisible (h : isIdentStart c = false) : ¬ RuleBetween front (c :: rest) := fun seen => by
      have rule := seen.rule
      rw [not_startsRule_cons h] at rule
      cases rule
    cases comment with
    | true =>
      have outside : ¬ InMargin front := fun h => by cases margin.1 h
      rw [blankRun, if_pos rfl]
      refine skip (c != '\n') (fun seen => outside seen.margin) ?_
      rw [inMargin_snoc, bne_eq_false_iff_eq]
      exact ⟨fun h => h.resolve_right fun blank => outside blank.2, .inl⟩
    | false =>
      have inside : InMargin front := margin.2 rfl
      rw [blankRun, if_neg Bool.false_ne_true]
      by_cases blank : isBlank c = true
      · rw [if_pos blank]
        have sort : isMarginBlank c = true ∨ c = '\n' := by
          simpa [isBlank, isMarginBlank, or_assoc] using blank
        have other : isIdentStart c = false := by
          rw [← Bool.not_eq_true]
          intro start
          have := opensBlank_of_isIdentStart start
          rw [opensBlank, blank] at this
          cases this
        refine skip false (invisible other) ⟨fun _ => rfl, fun _ => inMargin_snoc.2 ?_⟩
        exact sort.symm.imp_right fun blank => ⟨blank, inside⟩
      · rw [if_neg blank]
        by_cases hash : c = '#'
        · subst hash
          rw [if_pos rfl]
          refine skip true (invisible rfl) (iff_of_false ?_ (by decide))
          rw [inMargin_snoc]
          rintro (same | ⟨blank, -⟩)
          · cases same
          · cases blank
        · rw [if_neg hash]
          exact ⟨.zero, .inr (by simpa using inside)⟩

/-- Behind blanks and comments comes something else. -/
theorem stops_blankRun (comment : Bool) (rest : List Char) :
    Stops opensBlank (rest.drop (blankRun comment rest)) := by
  induction rest generalizing comment with
  | nil => rfl
  | cons c rest ih =>
    rw [blankRun]
    split
    · exact ih _
    · next outside =>
      split
      · exact ih _
      · next other =>
        split
        · exact ih _
        · next hash => simp [Stops, opensBlank, other, hash]

/-- The place behind the rest of a line and its newline. -/
def behindLine (rest : List Char) : Nat := (rest.takeWhile (· != '\n')).length + 1

theorem behindLine_cons {c : Char} (inLine : c ≠ '\n') (rest : List Char) :
    behindLine (c :: rest) = behindLine rest + 1 := by
  simp [behindLine, inLine]

/-- Behind a line is the margin of the next one, or the end of the text. -/
theorem margin_behindLine (front rest : List Char) :
    rest.drop (behindLine rest) = [] ∨ InMargin (front ++ rest.take (behindLine rest)) := by
  induction rest generalizing front with
  | nil => exact .inl rfl
  | cons c rest ih =>
    by_cases newline : c = '\n'
    · subst newline
      exact .inr (inMargin_snoc.2 (.inl rfl))
    · rw [behindLine_cons newline, List.drop_succ_cons, List.take_succ_cons, List.append_cons]
      exact ih _

/-- **The rest of a line hides no rule** behind something visible. -/
theorem line_hides {front : List Char} (visible : ¬ InMargin front) (rest : List Char) :
    Hides front rest (behindLine rest) := by
  intro k below seen
  have inLine : '\n' ∉ rest.take k := by
    intro mem
    have within : rest.take k <+: rest.takeWhile (· != '\n') := by
      refine List.prefix_of_prefix_length_le (List.take_prefix k rest) (List.takeWhile_prefix _) ?_
      exact Nat.le_trans (List.length_take_le k rest) (Nat.le_of_lt_succ below)
    simpa using List.mem_takeWhile_imp (within.subset mem)
  exact not_inMargin_append visible inLine seen.margin

/-- A line hides no rule if what can be seen of it first is none. -/
theorem ruleless_hides {front rest : List Char} (stop : Stops opensBlank rest) (noRule : startsRule rest = false)
    (left : rest ≠ []) : Hides front rest (behindLine rest) := by
  cases rest with
  | nil => exact absurd rfl left
  | cons c rest =>
    obtain ⟨notBlank, -⟩ : isBlank c = false ∧ c ≠ '#' := by simpa [Stops, opensBlank] using stop
    obtain ⟨notMargin, inLine⟩ : isMarginBlank c = false ∧ c ≠ '\n' := by
      simpa [isBlank, isMarginBlank] using notBlank
    rw [behindLine_cons inLine]
    refine .cons (fun seen => ?_) (line_hides ?_ rest)
    · have rule := seen.rule
      rw [noRule] at rule
      cases rule
    · rw [inMargin_snoc, notMargin]
      rintro (same | ⟨blank, -⟩)
      · exact inLine same
      · cases blank

/-! ## The search -/

namespace Cursor

variable {c d : Cursor}

/-- The search for the next rule, as often as it takes: blanks are skipped, and where neither the end of the
text nor a rule comes next, the rest of the line. -/
inductive SeeksRule : Cursor → Cursor → Prop
  | stops {c : Cursor} (here : (c.skipBlank.atEnd || c.skipBlank.atRuleStart) = true) : SeeksRule c c.skipBlank
  | goesOn {c d : Cursor} (on : ¬ (c.skipBlank.atEnd || c.skipBlank.atRuleStart) = true)
      (further : SeeksRule c.skipBlank.skipLine d) : SeeksRule c d

/-- **The search comes to an end**, since every round of it that goes on leaves something behind. -/
theorem seekRule_seeks {n : Nat} (enough : c.rest.length < n) : SeeksRule c (c.seekRule n) := by
  induction n generalizing c with
  | zero => omega
  | succ n ih =>
    unfold seekRule
    dsimp only
    split
    · next here => exact .stops here
    · next on =>
      have shorter := length_round_lt on
      exact .goesOn on (ih (by omega))

/-- A cursor reads `n` characters from the margin of a line, hides no rule by that, and ends where a rule is
seen or nothing is left. -/
def Uncovers (front : List Char) (c : Cursor) (n : Nat) : Prop :=
  Hides front c.rest n ∧
    (c.rest.drop n = [] ∨ RuleBetween (front ++ c.rest.take n) (c.rest.drop n))

/-- A round of the search starts at a margin again. -/
theorem skipBlank_hides {front : List Char} (margin : c.rest = [] ∨ InMargin front) :
    Hides front c.rest (blankRun false c.rest) ∧
      (c.rest.drop (blankRun false c.rest) = [] ∨ InMargin (front ++ c.rest.take (blankRun false c.rest))) := by
  rcases margin with nothing | inside
  · rw [nothing]
    exact ⟨.zero, .inl rfl⟩
  · exact blankRun_hides false c.rest (iff_of_true inside rfl)

/-- **What the search skips hides no rule**, and where it ends a rule is seen, or nothing is left. By induction
on its rounds: a line is left only behind something visible that no rule starts with. -/
theorem SeeksRule.uncovers (h : SeeksRule c d) {front : List Char} (margin : c.rest = [] ∨ InMargin front) :
    ∃ n, d = c.advanceBy n ∧ Uncovers front c n := by
  induction h generalizing front with
  | stops here =>
    obtain ⟨hides, ends⟩ := skipBlank_hides margin
    refine ⟨_, rfl, hides, ?_⟩
    rw [atEnd, atRuleStart, skipBlank, rest_advanceBy, Bool.or_eq_true, List.isEmpty_iff] at here
    rcases here with nothing | rule
    · exact .inl nothing
    · exact ends.imp_right fun inside => ⟨inside, rule⟩
  | goesOn on further ih =>
    rename_i c d
    obtain ⟨hides, ends⟩ := skipBlank_hides margin
    have behind : c.skipBlank.rest = c.rest.drop (blankRun false c.rest) := rest_advanceBy _ _
    rw [atEnd, atRuleStart, Bool.or_eq_true, List.isEmpty_iff, not_or, Bool.not_eq_true, behind] at on
    obtain ⟨left, noRule⟩ := on
    have line := @ruleless_hides (front ++ c.rest.take (blankRun false c.rest)) _
      (stops_blankRun false c.rest) noRule left
    -- The rest is one round, and what is left behind it.
    have round : c.skipBlank.skipLine =
        c.advanceBy (blankRun false c.rest + behindLine (c.rest.drop (blankRun false c.rest))) := by
      rw [skipLine_eq, behind]
      exact (advanceBy_add _ _ c).symm
    have rest := congrArg Cursor.rest round
    rw [rest_advanceBy] at rest
    have next := margin_behindLine (front ++ c.rest.take (blankRun false c.rest))
      (c.rest.drop (blankRun false c.rest))
    rw [List.drop_drop, List.append_assoc, ← List.take_add, ← rest] at next
    obtain ⟨n, rfl, hidden, found⟩ := ih next
    rw [rest, List.drop_drop] at found
    rw [rest] at hidden
    refine ⟨_, by rw [round, ← advanceBy_add], .add (hides.add line) ?_, ?_⟩
    · exact hidden
    · rw [List.take_add, ← List.append_assoc]
      exact found

/-! ## Places of the text -/

/-- The place of the newline that ends the current line, or of the end of the text. -/
def lineStop (c : Cursor) : Nat := c.pos + (c.run (· != '\n')).length

theorem Valid.ruleSeenAt_iff (h : c.Valid) (n : Nat) : RuleSeenAt c.source.chars (c.pos + n) ↔
    RuleBetween (c.source.chars.take c.pos ++ c.rest.take n) (c.rest.drop n) := by
  rw [RuleSeenAt, List.take_add, ← List.drop_drop, ← h.rest_eq]

/-- What is uncovered is the first place from which a rule is seen, or the end if there is none. -/
theorem Uncovers.isLeast {n : Nat} (h : Uncovers (c.source.chars.take c.pos) c n) (valid : c.Valid) :
    IsLeast {i | c.pos ≤ i ∧ RuleSeenAt c.source.chars i} (c.advanceBy n).pos ∧ (c.advanceBy n).atRuleStart = true ∨
      (∀ i, c.pos ≤ i → ¬ RuleSeenAt c.source.chars i) ∧ (c.advanceBy n).atEnd = true := by
  obtain ⟨hides, nothing | seen⟩ := h
  · refine .inr ⟨fun i behind seen => ?_, ?_⟩
    · obtain ⟨k, rfl⟩ := Nat.exists_eq_add_of_le behind
      rw [valid.ruleSeenAt_iff] at seen
      rcases Nat.lt_or_ge k n with before | after
      · exact hides k before seen
      · have rule := seen.rule
        rw [← Nat.add_sub_cancel' after, ← List.drop_drop, nothing, List.drop_nil] at rule
        cases rule
    · rw [atEnd, rest_advanceBy, nothing]
      rfl
  · have inside : n < c.rest.length := by
      rw [← Nat.not_le]
      intro le
      have rule := seen.rule
      rw [List.drop_of_length_le le] at rule
      cases rule
    have pos : (c.advanceBy n).pos = c.pos + n := by
      rw [pos_advanceBy, Nat.min_eq_left (Nat.le_of_lt inside)]
    refine .inl ⟨⟨⟨?_, ?_⟩, ?_⟩, ?_⟩
    · omega
    · rw [pos]
      exact (valid.ruleSeenAt_iff n).2 seen
    · rintro i ⟨behind, seen'⟩
      obtain ⟨k, rfl⟩ := Nat.exists_eq_add_of_le behind
      rw [valid.ruleSeenAt_iff] at seen'
      rw [pos]
      by_contra before
      exact hides k (by omega) seen'
    · rw [atRuleStart, rest_advanceBy]
      exact seen.rule

end Cursor

namespace RuleSeenAt

/-- A rule is seen from no place behind the text. -/
theorem lt_length {text : List Char} {i : Nat} (h : RuleSeenAt text i) : i < text.length := by
  rw [← Nat.not_le]
  intro le
  have rule := h.rule
  rw [List.drop_of_length_le le] at rule
  cases rule

/-- Places behind a line are those behind its newline. -/
theorem lineStop_lt_iff {c : Cursor} (valid : c.Valid) {i : Nat} (h : RuleSeenAt c.source.chars i) :
    c.lineStop < i ↔ c.skipLine.pos ≤ i := by
  have below := h.lt_length
  have length := valid.length_rest
  rw [Cursor.skipLine_eq, Cursor.pos_advanceBy, Cursor.lineStop, Cursor.run]
  omega

end RuleSeenAt

namespace Parse

open Cursor

/-- **Recovery ends at the first place from which a rule is seen** behind its line, or at the end of the text
if there is none, and it comes to an end by itself. It moves the cursor forward and leaves everything else of a
reading as it is; how deep a reading may nest is given to expressions and not kept in between. -/
theorem synchronize_isLeast {limits : Limits} {s : ParseState} (valid : s.cursor.Valid) :
    Ensures limits s (move Cursor.synchronize) fun _ t =>
      t = { s with cursor := t.cursor } ∧ s.cursor.Reaches t.cursor ∧ SeeksRule s.cursor.skipLine t.cursor ∧
        (IsLeast {i | s.cursor.lineStop < i ∧ RuleSeenAt s.cursor.source.chars i} t.cursor.pos ∧
            t.cursor.atRuleStart = true ∨
          (∀ i, s.cursor.lineStop < i → ¬ RuleSeenAt s.cursor.source.chars i) ∧ t.cursor.atEnd = true) := by
  rw [ensures_move]
  generalize s.cursor = c at valid ⊢
  have line : c.skipLine = c.advanceBy (behindLine c.rest) := skipLine_eq c
  have valid' : c.skipLine.Valid := line ▸ valid.advanceBy _
  have same : c.skipLine.source = c.source := line ▸ source_advanceBy _ c
  have seeks : SeeksRule c.skipLine c.synchronize := seekRule_seeks (Nat.lt_succ_self _)
  have margin : c.skipLine.rest = [] ∨ InMargin (c.skipLine.source.chars.take c.skipLine.pos) := by
    rw [same, line, valid.take_pos_advanceBy, rest_advanceBy]
    exact margin_behindLine _ _
  obtain ⟨n, ends, uncovers⟩ := seeks.uncovers margin
  refine ⟨rfl, ?_, seeks, ?_⟩
  · show c.Reaches c.synchronize
    rw [ends, line]
    exact ⟨_, (advanceBy_add _ _ c).symm⟩
  · have least := uncovers.isLeast valid'
    rw [← ends, same] at least
    refine least.imp (And.imp_left fun least => ?_) (And.imp_left fun none i behind seen => ?_)
    · have : {i | c.lineStop < i ∧ RuleSeenAt c.source.chars i} =
          {i | c.skipLine.pos ≤ i ∧ RuleSeenAt c.source.chars i} :=
        Set.ext fun i => and_congr_left fun seen => seen.lineStop_lt_iff valid
      rw [this]
      exact least
    · exact none i ((seen.lineStop_lt_iff valid).1 behind) seen

/-- Behind an open group: a word that starts no rule, a comment that would, and a rule that does. -/
theorem synchronize_isLeast_comment : (Cursor.ofString "a = (\nb\n# c = 1\n \t d = x").Valid ∧
    IsLeast {i | 5 < i ∧ RuleSeenAt "a = (\nb\n# c = 1\n \t d = x".toList i} 19 := by
  have valid := valid_ofChars "a = (\nb\n# c = 1\n \t d = x".toList
  refine ⟨valid, ?_⟩
  obtain ⟨-, -, -, ⟨least, -⟩ | ⟨-, atEnd⟩⟩ :=
    @synchronize_isLeast .standard ⟨.ofString "a = (\nb\n# c = 1\n \t d = x", [], false⟩ valid
  · exact least
  · cases atEnd

end Parse

end PatternRules

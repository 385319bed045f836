import PatternRules.Proofs.Accepts.Document
import PatternRules.Proofs.Nesting
import PatternRules.Proofs.RoundTrip
import PatternRules.Proofs.RuleLine

/-!
Where nesting goes too deep. Up to the group or capture that contains more levels than are left, an expression is
accepted as it is written; there it is recorded that nesting goes too deep, and whatever is read then leads to a later
state, in which that is still recorded. `Overruns` says so of a reading and the text in front of it, with one lemma
for each construct that contains others, in the order of the grammar.

The limit counts the expression of the rule too: an expression is read without complaint if its groups and captures
nest less deep than the limit, and overruns otherwise (`nesting_limit`).
-/

namespace PatternRules

open Abstract

/-- It is recorded that nesting went too deep. -/
def ParseState.Overrun (depth : Nat) (s : ParseState) : Prop := ∃ e ∈ s.errors, e.TooDeep depth

theorem Later.overrun {depth : Nat} {s t : ParseState} (h : Later depth s t) (overrun : s.Overrun depth) :
    t.Overrun depth := by
  obtain ⟨e, he, tooDeep⟩ := overrun
  exact ⟨e, h.front.subset he, tooDeep⟩

namespace Parse

variable {α β : Type} {limits : Limits} {text tail : List Char}

/-! ## Overrunning -/

/-- In front of `text`, `p` records that nesting goes too deep, as long as there is room for errors and that was not
complained about before. -/
def Overruns (limits : Limits) (p : Parse α) (text : List Char) : Prop :=
  ∀ s : ParseState, s.cursor.rest = text → s.errors.length < limits.errors → s.nestingReported = false →
    0 < limits.depth → Ensures limits s p fun _ t => t.Overrun limits.depth

namespace Overruns

variable {p : Parse α} {f : α → Parse β} {post : α → Prop}

/-- What the first of two readings records stays recorded. -/
theorem first (h : Overruns limits p text) (next : ∀ a, Proceeds (f a)) : Overruns limits (p >>= f) text :=
  fun s hs room fresh deep => (h s hs room fresh deep).bind fun a t overrun =>
    (next a limits t deep).mono fun _ _ later => later.overrun overrun

/-- The first of two readings accepts what is in front of the second. -/
theorem second (h : Accepts limits p text tail post)
    (next : ∀ a, post a → Overruns limits (f a) tail) : Overruns limits (p >>= f) (text ++ tail) := by
  intro s hs room fresh deep
  refine (h s hs room).bind ?_
  rintro a _ ⟨rfl, ha⟩
  exact next a ha _ (ParseState.rest_past hs) room fresh deep

theorem look (h : Accepts limits p [] text post) (next : ∀ a, post a → Overruns limits (f a) text) :
    Overruns limits (p >>= f) text :=
  second h next

theorem one {c : Char} (h : Accepts limits p [c] text post)
    (next : ∀ a, post a → Overruns limits (f a) text) : Overruns limits (p >>= f) (c :: text) :=
  second h next

theorem afterGap {p : Parse (Option α)} (h : Overruns limits p text) {gap : List Char} (hg : Gap gap)
    (stop : Stops opensBlank text) : Overruns limits (afterBlank p) (gap ++ text) := by
  refine .look cursor_accepts fun start _ => .second (skipGap_accepts hg stop) fun _ _ => h.first ?_
  rintro (_ | a)
  · exact .bind (.move fun _ => start) fun _ => .pure none
  · exact .pure (some a)

theorem orReport {p : Parse (Option α)} (h : Overruns limits p text) {complaint : Complaint}
    (plain : complaint.isPlain = true) : Overruns limits (orReport complaint p) text := by
  refine h.first fun r => ?_
  split
  · exact .bind (.looking fun c => .report plain _) fun _ => .pure r
  · exact .pure r

end Overruns

/-! ### Repetition -/

/-- Repeating `step` overruns `text`, if it may be repeated often enough. -/
def OverrunsMany (limits : Limits) (step : Parse (Option α)) (text : List Char) : Prop :=
  ∀ fuel, text.length < fuel → Overruns limits (manyFuel step fuel) text

section

variable {step : Parse (Option α)} {P : α → Prop}

theorem OverrunsMany.here (h : Overruns limits step text) (proceeds : Proceeds step) :
    OverrunsMany limits step text := by
  intro fuel enough
  cases fuel with
  | zero => omega
  | succ fuel =>
    refine h.first ?_
    rintro (_ | a)
    · exact .pure []
    · exact .bind (manyFuel_contract (K := .nesting) (x := .settled) proceeds fuel) fun as => .pure (a :: as)

theorem OverrunsMany.behind (h : Accepts limits step text tail (Finds P)) (read : text ≠ [])
    (further : OverrunsMany limits step tail) : OverrunsMany limits step (text ++ tail) := by
  intro fuel enough
  cases fuel with
  | zero => omega
  | succ fuel =>
    have := List.length_pos_iff.2 read
    rw [List.length_append] at enough
    refine .second h ?_
    rintro _ ⟨a, rfl, -⟩
    exact (further fuel (by omega)).first fun as => .pure (a :: as)

theorem OverrunsMany.many (h : OverrunsMany limits step text) : Overruns limits (many step) text := by
  refine .look cursor_accepts ?_
  rintro c rfl
  exact h _ (Nat.lt_succ_self _)

end

/-! ## Groups and captures -/

/-- What is inside of groups and captures overruns, if it nests at least `levels` deep; if it nests less deep, it
is accepted. -/
structure Inside (limits : Limits) (levels : Nat) (inner : Parse (Option Node)) : Prop where
  proceeds : Proceeds (afterBlank inner)
  accepts : AcceptsWithin limits levels inner
  overruns : ∀ (e : Expression) (text : List Char), e.Written text → levels ≤ e.depth →
    ∀ tail, Overruns limits inner (text ++ tail)

variable {inner : Parse (Option Node)} {levels : Nat}

section

variable {e : Expression} {gap : List Char}

theorem enclosed_overruns (h : Inside limits levels inner) (he : e.Written text) (hd : levels ≤ e.depth)
    (hg : Gap gap) {missing : Complaint} (plain : missing.isPlain = true) (tail : List Char) :
    Overruns limits (enclosed missing inner) (gap ++ (text ++ tail)) := by
  have body : Overruns limits (afterBlank inner) (gap ++ (text ++ tail)) :=
    .afterGap (h.overruns e text he hd tail) hg (he.stops_blank tail)
  exact body.first fun body => behindBody_contract (K := .nesting) plain body

theorem group_overruns (h : Inside limits levels inner) (he : e.Written text) (hd : levels ≤ e.depth)
    (hg : Gap gap) (tail : List Char) : Overruns limits (group inner) ('(' :: (gap ++ (text ++ tail))) := by
  refine .look cursor_accepts fun start _ => .one advance_accepts fun _ _ => ?_
  refine (enclosed_overruns h he hd hg rfl tail).first fun body => ?_
  exact branchFrom_contract (K := .nesting) .settled _ start _

theorem namedCapture_overruns (h : Inside limits levels inner) (name : Identifier) (he : e.Written text)
    (hd : levels ≤ e.depth) (hg : Gap gap) (tail : List Char) : Overruns limits (namedCapture inner)
      ('(' :: '?' :: 'P' :: '<' :: (name.render ++ '>' :: (gap ++ (text ++ tail)))) := by
  have parts : Overruns limits (captureParts inner) (name.render ++ '>' :: (gap ++ (text ++ tail))) := by
    refine .second ((identifier_accepts name (Stops.cons_iff.2 rfl)).orReport _) ?_
    rintro _ ⟨n, rfl, -⟩
    refine .one eatChar_accepts ?_
    rintro _ rfl
    exact (enclosed_overruns h he hd hg rfl tail).first fun body => .pure _
  refine .look cursor_accepts fun start _ => .second captureOpening_accepts fun _ _ => ?_
  exact parts.first fun parts => branchFrom_contract (K := .nesting) .settled _ start _

end

/-! ## Branches and expressions -/

section

variable {p : Primary} {q : Option Quantifier} {times gap : List Char}

/-- Only groups and captures nest. -/
theorem runsOn_of_depth (hd : levels < p.depth) : runsOn p none = false := by
  cases p with
  | operand name => simp [Primary.depth] at hd
  | _ => rfl

theorem primary_overruns (h : Inside limits levels inner) (hp : p.Written text) (hd : levels < p.depth)
    (tail : List Char) : Overruns limits (primary inner) (text ++ tail) := by
  cases hp with
  | @group _ text gap gap' he hg hg' =>
    rw [Primary.depth] at hd
    have rest : '(' :: (gap ++ (text ++ (gap' ++ [')']))) ++ tail =
        '(' :: (gap ++ (text ++ (gap' ++ ')' :: tail))) := by
      simp
    rw [rest]
    refine .look cursor_accepts fun c hc => ?_
    have capture : c.checkLiteral "(?P<" = false := noCapture_of_group he hg _ hc
    have group : c.peek = some '(' := by simp [Cursor.peek, hc]
    simp only [capture, if_pos group, Bool.false_eq_true, if_false]
    exact (group_overruns h he (by omega) hg _).first fun node => .pure (some node)
  | @capture name _ text gap gap' he hg hg' =>
    rw [Primary.depth] at hd
    have rest : '(' :: '?' :: 'P' :: '<' :: (name.render ++ '>' :: (gap ++ (text ++ (gap' ++ [')'])))) ++ tail =
        '(' :: '?' :: 'P' :: '<' :: (name.render ++ '>' :: (gap ++ (text ++ (gap' ++ ')' :: tail)))) := by
      simp
    rw [rest]
    refine .look cursor_accepts fun c hc => ?_
    have capture : c.checkLiteral "(?P<" = true := by
      rw [Cursor.checkLiteral, hc]
      rfl
    simp only [capture, if_true]
    exact (namedCapture_overruns h name he (by omega) hg _).first fun node => .pure (some node)
  | _ => simp [Primary.depth] at hd

theorem item_overruns (h : Inside limits levels inner) (hp : p.Written text) (hd : levels < p.depth)
    (tail : List Char) : Overruns limits (item inner) (text ++ tail) := by
  have operand := runsOn_of_depth hd
  refine .look (atBoundary_primary hp fun runs => ?_) ?_
  · rw [operand] at runs
    cases runs
  · rintro _ rfl
    refine .look cursor_accepts fun start _ => (primary_overruns h hp hd tail).first fun r => ?_
    exact quantifying_contract (K := .nesting) start r

end

section

variable {b : Branch} {e : Expression} {gap gap' : List Char}

theorem nextItem_overruns {p : Primary} (h : Inside limits levels inner) (hp : p.Written text)
    (hd : levels < p.depth) (hg : Gap gap) (tail : List Char) :
    Overruns limits (afterBlank (item inner)) (gap ++ (text ++ tail)) :=
  .afterGap (item_overruns h hp hd tail) hg (hp.stops_blank tail)

/-- The items of a branch, all behind a gap: those in front of the first that overruns are accepted. -/
theorem items_overrun (h : Inside limits levels inner) (tail : List Char) :
    ∀ (b : Branch) {text gap : List Char}, b.Written text → levels < b.depth → Gap gap →
      OverrunsMany limits (afterBlank (item inner)) (gap ++ (text ++ tail))
  | .last p q, _, gap, hb, hd, hg => by
    cases hb with
    | last hp hq =>
      rw [Branch.depth] at hd
      rw [List.append_assoc]
      exact .here (nextItem_overruns h hp hd hg _) (nextItem_contract (K := .nesting) h.proceeds)
  | .more p q further, _, gap, hb, hd, hg => by
    cases hb with
    | @more _ _ _ text times gap' rest hp hq hg' hf apart =>
      rw [Branch.depth] at hd
      by_cases first : levels < p.depth
      · rw [List.append_assoc]
        exact .here (nextItem_overruns h hp first hg _) (nextItem_contract (K := .nesting) h.proceeds)
      · have parts : gap ++ (text ++ (times ++ (gap' ++ rest)) ++ tail) =
            (gap ++ (text ++ times)) ++ (gap' ++ (rest ++ tail)) := by
          simp
        have ends : EndsItem p q (gap' ++ (rest ++ tail)) := by
          rw [← List.append_assoc]
          exact hf.endsItem hg' apart tail
        rw [parts]
        refine .behind (nextItem_accepts h.accepts hp hq (by omega) ends hg) ?_
          (items_overrun h tail further hf (by omega) hg')
        exact (Branch.Written.last hp hq).ne_nil gap

theorem concatenation_overruns (h : Inside limits levels inner) (hb : b.Written text) (hd : levels < b.depth)
    (tail : List Char) : Overruns limits (concatenation inner) (text ++ tail) := by
  have joining := joining_contract (K := .nesting) (nextItem_contract (K := .nesting) h.proceeds) .concatenation
  refine .look cursor_accepts fun start _ => ?_
  cases hb with
  | last hp hq =>
    rw [Branch.depth] at hd
    rw [List.append_assoc]
    exact (item_overruns h hp hd _).first fun first => joining start first
  | @more p q further text times gap rest hp hq hg hf apart =>
    rw [Branch.depth] at hd
    by_cases first : levels < p.depth
    · rw [List.append_assoc]
      exact (item_overruns h hp first _).first fun first => joining start first
    · have parts : text ++ (times ++ (gap ++ rest)) ++ tail = (text ++ times) ++ (gap ++ (rest ++ tail)) := by
        simp
      have ends : EndsItem p q (gap ++ (rest ++ tail)) := by
        rw [← List.append_assoc]
        exact hf.endsItem hg apart tail
      rw [parts]
      refine .second (item_accepts h.accepts hp hq (by omega) ends) ?_
      rintro _ ⟨first, rfl, -⟩
      refine (items_overrun h tail further hf (by omega) hg).many.first fun items => ?_
      exact joined_contract (K := .nesting) .loose _ start first items

/-- A branch behind a bar. -/
theorem nextBranch_overruns (h : Inside limits levels inner) (hb : b.Written text) (hd : levels < b.depth)
    (hg : Gap gap) (hg' : Gap gap') (tail : List Char) :
    Overruns limits (nextBranch inner) (gap ++ '|' :: (gap' ++ (text ++ tail))) := by
  have parts : gap ++ '|' :: (gap' ++ (text ++ tail)) = (gap ++ ['|']) ++ (gap' ++ (text ++ tail)) := by
    simp
  rw [parts]
  refine .second (bar_accepts hg) ?_
  rintro _ rfl
  have branch : Overruns limits (afterBlank (concatenation inner)) (gap' ++ (text ++ tail)) :=
    .afterGap (concatenation_overruns h hb hd tail) hg' (hb.stops_blank tail)
  exact branch.orReport rfl

/-- The branches of an expression, all behind a bar: those in front of the first that overruns are accepted. -/
theorem branches_overrun (h : Inside limits levels inner) (tail : List Char) :
    ∀ (e : Expression) {text gap gap' : List Char}, e.Written text → levels < e.depth → Gap gap → Gap gap' →
      OverrunsMany limits (nextBranch inner) (gap ++ '|' :: (gap' ++ (text ++ tail)))
  | .last b, _, gap, gap', he, hd, hg, hg' => by
    cases he with
    | last hb =>
      rw [Expression.depth] at hd
      exact .here (nextBranch_overruns h hb hd hg hg' tail) (nextBranch_contract (K := .nesting) h.proceeds)
  | .more b further, _, gap, gap', he, hd, hg, hg' => by
    cases he with
    | @more _ _ text before behind rest hb hg₁ hg₂ hf =>
      rw [Expression.depth] at hd
      by_cases first : levels < b.depth
      · rw [List.append_assoc]
        exact .here (nextBranch_overruns h hb first hg hg' _) (nextBranch_contract (K := .nesting) h.proceeds)
      · have parts : gap ++ '|' :: (gap' ++ (text ++ (before ++ '|' :: (behind ++ rest)) ++ tail)) =
            (gap ++ '|' :: (gap' ++ text)) ++ (before ++ '|' :: (behind ++ (rest ++ tail))) := by
          simp
        rw [parts]
        refine .behind (nextBranch_accepts h.accepts hb (by omega) (.bar hg₁ _) hg hg') (by simp) ?_
        exact branches_overrun h tail further hf (by omega) hg₁ hg₂

theorem alternation_overruns (h : Inside limits levels inner) (he : e.Written text) (hd : levels < e.depth)
    (tail : List Char) : Overruns limits (alternation inner) (text ++ tail) := by
  have joining := joining_contract (K := .nesting) (nextBranch_contract (K := .nesting) h.proceeds) .alternation
  refine .look cursor_accepts fun start _ => ?_
  cases he with
  | last hb =>
    rw [Expression.depth] at hd
    exact (concatenation_overruns h hb hd tail).first fun first => joining start first
  | @more b further text before behind rest hb hg hg' hf =>
    rw [Expression.depth] at hd
    by_cases first : levels < b.depth
    · rw [List.append_assoc]
      exact (concatenation_overruns h hb first _).first fun first => joining start first
    · have parts : text ++ (before ++ '|' :: (behind ++ rest)) ++ tail =
          text ++ (before ++ '|' :: (behind ++ (rest ++ tail))) := by
        simp
      rw [parts]
      refine .second (concatenation_accepts h.accepts hb (by omega) (.bar hg _)) ?_
      rintro _ ⟨first, rfl, -⟩
      refine (branches_overrun h tail further hf (by omega) hg hg').many.first fun branches => ?_
      exact joined_contract (K := .nesting) .loose _ start first branches

/-- Where no level is left, it is recorded that nesting goes too deep, if there is room. -/
theorem reportNesting_overruns : Overruns limits reportNesting text := by
  intro s _ room fresh _
  simp only [reportNesting, ensures_bind, ensures_get, fresh, Bool.not_false, if_true, ensures_modify, reportHere,
    ensures_read, ensures_cursor, ensures_report]
  rw [ParseState.recording, if_neg (Nat.not_le.2 room)]
  exact ⟨_, List.mem_append_right _ (List.mem_singleton_self _), rfl⟩

/-- **Expressions overrun if they nest deeper than is read**, by induction on the levels that are left. -/
theorem expressionWithin_inside (levels : Nat) : Inside limits levels (expressionWithin levels) := by
  induction levels with
  | zero =>
    refine ⟨expressionWithin_contract (K := .nesting) 0, expressionWithin_accepts 0, fun e text _ _ tail => ?_⟩
    exact reportNesting_overruns.first fun _ => .pure none
  | succ levels ih =>
    refine ⟨expressionWithin_contract (K := .nesting) _, expressionWithin_accepts _, fun e text he hd tail => ?_⟩
    exact alternation_overruns ih he hd tail

end

/-! ## A rule by itself -/

section

variable {e : Expression}

/-- A rule called `r` with nothing but a body. -/
def bareRule (text : List Char) : List Char := "r = ".toList ++ text

theorem startsRule_bareRule (text : List Char) : startsRule (bareRule text) = true := rfl

theorem expression_overruns (he : e.Written text) (hd : limits.depth ≤ e.depth) (tail : List Char) :
    Overruns limits expression (text ++ tail) :=
  (expressionWithin_inside limits.depth).overruns e text he hd tail

theorem ruleTail_overruns (name : String) (he : e.Written text) (hd : limits.depth ≤ e.depth) :
    Overruns limits (ruleTail name) (" = ".toList ++ text) := by
  have equals : Accepts limits (afterBlank singleEquals) [' ', '='] (' ' :: text) (Finds fun _ => True) :=
    singleEquals_accepts.afterBlank [' '] rfl (Stops.cons_iff.2 rfl)
  have front : Stops opensBlank text := by
    have := he.stops_blank []
    rwa [List.append_nil] at this
  have body : Overruns limits (afterBlank expression) (' ' :: text) := by
    have overruns := expression_overruns he hd []
    rw [List.append_nil] at overruns
    exact overruns.afterGap .space front
  show Overruns limits _ ([' ', '='] ++ ' ' :: text)
  refine .second (equals.orReport _) ?_
  rintro _ ⟨_, rfl, -⟩
  refine (body.orReport rfl).first ?_
  rintro (_ | body)
  · exact .pure ([], false)
  · refine .bind (.afterBlank (ruleUses_contract (K := .nesting))) fun clause => ?_
    exact .pure (body :: clause.toList, true)

theorem rule_overruns (he : e.Written text) (hd : limits.depth ≤ e.depth) :
    Overruns limits rule (bareRule text) := by
  have name : Accepts limits identifier ['r'] (" = ".toList ++ text) (Finds fun _ => True) :=
    (identifier_accepts ⟨'r', [], rfl, rfl⟩ (Stops.cons_iff.2 rfl)).mono
      fun _ ⟨n, found, _⟩ => ⟨n, found, trivial⟩
  have count : Accepts limits errorCount [] (bareRule text) fun _ => True := fun _ _ _ => ⟨rfl, trivial⟩
  refine .look cursor_accepts fun start _ => .look count fun before _ => ?_
  show Overruns limits _ (['r'] ++ (" = ".toList ++ text))
  refine .second name ?_
  rintro _ ⟨name, rfl, -⟩
  refine (ruleTail_overruns _ he hd).first ?_
  rintro ⟨parts, complete⟩
  refine .bind (branchFrom_contract (K := .nesting) .settled _ start _) fun node => ?_
  exact .counting fun after => .pure _

theorem nextRule_overruns (he : e.Written text) (hd : limits.depth ≤ e.depth) :
    Overruns limits nextRule (bareRule text) := by
  refine .look cursor_accepts fun c hc => .look errorsFull_accepts ?_
  rintro _ rfl
  have more : c.atEnd = false := by
    rw [Cursor.atEnd, hc]
    rfl
  rw [more]
  refine (rule_overruns he hd).first ?_
  rintro (_ | rule)
  · exact .pure none
  · exact leaving_contract (K := .nesting) Cursor.reaches_synchronize (some rule.node)

theorem nextRule_bareRule (he : e.Written text) (hd : e.depth < limits.depth) :
    Accepts limits nextRule (bareRule text) [] (Finds fun _ => True) := by
  have noClause : Accepts limits (afterBlank ruleUses) [] [] (Node.outlines ·.toList = []) := by
    have nothing : Accepts limits ruleUses [] [] (· = none) := by
      apply cursor_accepts.look
      intro c hc
      have key : c.atKeyword "uses" = false := Cursor.not_atKeyword rfl (.inr (by simp [hc]))
      rw [key]
      exact .pure rfl
    refine (nothing.afterGap_none .nothing .nil).mono ?_
    rintro _ rfl
    exact Node.outlines_nil
  have tail (word : String) : Accepts limits (ruleTail word) (" = ".toList ++ text) []
      fun found => Node.outlines found.1 = [e.outline] ∧ found.2 = true := by
    have parts := ruleTail_of_parts word he hd .nothing noClause
    rwa [List.append_nil] at parts
  have rule := rule_of_tail ⟨'r', [], rfl, rfl⟩ (Stops.cons_iff.2 rfl) tail
  have next : Accepts limits nextRule (bareRule text ++ []) [] _ :=
    nextRule_of_rule rule (List.cons_ne_nil _ _) rfl .nil
  rw [List.append_nil] at next
  exact next.mono fun _ ⟨n, found, _⟩ => ⟨n, found, trivial⟩

theorem rules_overrun (he : e.Written text) (hd : limits.depth ≤ e.depth) :
    Overruns limits (many nextRule) (bareRule text) :=
  OverrunsMany.many (.here (nextRule_overruns he hd) (nextRule_contract Contract.nesting_stageless))

theorem rules_bareRule (he : e.Written text) (hd : e.depth < limits.depth) :
    Accepts limits (many nextRule) (bareRule text) [] fun _ => True := by
  have nothing : AcceptsMany limits nextRule [] [] fun _ => True := .stop nextRule_declines trivial
  have rules : AcceptsMany limits nextRule (bareRule text ++ []) [] fun _ => True :=
    (nextRule_bareRule he hd).cons (List.cons_ne_nil _ _) nothing fun _ _ _ _ => trivial
  rw [List.append_nil] at rules
  exact rules.many

end

end Parse

open Parse

/-- A rule is read without complaint if its body nests less deep than the limit says. -/
theorem clean_bareRule {limits : Limits} (room : 0 < limits.errors) {e : Expression} {text : List Char}
    (written : e.Written text) (hd : e.depth < limits.depth) :
    (readWithin limits (bareRule text)).2.errors = [] := by
  have rules := readWithin_of_startsRule (startsRule_bareRule text) limits
  have clean := rules_bareRule written hd ⟨.ofChars (bareRule text), [], false⟩ (List.append_nil _).symm room
  obtain ⟨⟨-, same⟩, ends, -⟩ := rules.and clean
  rw [same, ends]
  rfl

/-- A rule overruns if its body nests at least as deep. -/
theorem overrun_bareRule {limits : Limits} (room : 0 < limits.errors) (deep : 0 < limits.depth) {e : Expression}
    {text : List Char} (written : e.Written text) :
    (readWithin limits (bareRule text)).2.Overrun limits.depth ↔ limits.depth ≤ e.depth := by
  constructor
  · rintro ⟨error, mem, -⟩
    by_contra less
    rw [clean_bareRule room written (Nat.not_le.1 less)] at mem
    cases mem
  · intro nests
    have rules := readWithin_of_startsRule (startsRule_bareRule text) limits
    have overruns := rules_overrun written nests ⟨.ofChars (bareRule text), [], false⟩ rfl room rfl deep
    obtain ⟨⟨-, same⟩, overrun⟩ := rules.and overruns
    rwa [same]

/-- **The guard against deep nesting counts the expression of the rule.** It fires, once, on every expression
whose groups and captures nest at least as many levels as the limit says, and on none that nests less deep, however
the expression is laid out. -/
theorem nesting_limit {e : Expression} {text : String} (written : e.Written text.toList) :
    ((∃ error ∈ (readDocument ("r = " ++ text)).errors, error.TooDeep Limits.standard.depth) ↔
        Limits.standard.depth ≤ e.depth) ∧
      nestings Limits.standard.depth (readDocument ("r = " ++ text)).errors ≤ 1 := by
  have rule : ("r = " ++ text).toList = bareRule text.toList := String.toList_append
  rw [errors_readDocument, rule]
  exact ⟨overrun_bareRule (by decide) (by decide) written, nestings_le_one (by decide) _⟩

/-- Sixty-four groups are as many levels as the limit, so the guard fires on them. -/
theorem nesting_limit_nested :
    (∃ error ∈ (readDocument ("r = " ++ String.ofList (Expression.last (.last (nested 64) none)).render)).errors,
        error.message = "Expression nesting too deep (maximum depth is 64)") ∧
      nestings 64
        (readDocument ("r = " ++ String.ofList (Expression.last (.last (nested 64) none)).render)).errors ≤ 1 := by
  have written : (Expression.last (.last (nested 64) none)).Written
      (String.ofList (Expression.last (.last (nested 64) none)).render).toList := by
    rw [String.toList_ofList]
    exact Expression.written_render _ (by decide +kernel)
  have depth : Limits.standard.depth ≤ (Expression.last (.last (nested 64) none)).depth := by decide +kernel
  exact ⟨(nesting_limit written).1.2 depth, (nesting_limit written).2⟩

end PatternRules

import PatternRules.Proofs.Accepts.Expression
import PatternRules.Proofs.Accepts.Resolver

/-!
Documents are accepted as they are rendered: the version, imports, the default resolver and rules,
each on its line. What stands on the next line decides where a statement ends: a rule, the keyword of
a later section, or nothing.
-/

namespace PatternRules

open Abstract

/-! ## Versions -/

theorem versionLength_digits {digits : List Char} (h : digits.all Char.isDigit = true)
    (tail : List Char) : versionLength (digits ++ tail) = digits.length + versionLength tail := by
  induction digits with
  | nil => simp
  | cons c digits ih =>
    rw [List.all_cons, Bool.and_eq_true] at h
    simp only [List.cons_append, versionLength, h.1, Bool.true_or, if_true, ih h.2, List.length_cons]
    omega

theorem head_digits (ds : Digits) (tail : List Char) :
    (ds.1 ++ tail).head?.any Char.isDigit = true := by
  obtain ⟨ds, ne, all⟩ := ds
  cases ds with
  | nil => exact absurd rfl ne
  | cons c ds =>
    rw [List.all_cons, Bool.and_eq_true] at all
    exact all.1

theorem digits_word (ds : Digits) : ds.1.all isWordChar = true := by
  rw [List.all_eq_true]
  intro c hc
  have digit := List.all_eq_true.1 ds.2.2 c hc
  simp [isWordChar, Char.isAlphanum, digit]

theorem versionLength_literal (v : Version) (rest : List Char) :
    versionLength (v.literal ++ '\n' :: rest) = v.literal.length := by
  have further (dss : List Digits) : versionLength (dss.flatMap ('.' :: ·.1) ++ '\n' :: rest) =
      (dss.flatMap ('.' :: ·.1)).length := by
    induction dss with
    | nil => rfl
    | cons ds dss ih =>
      have digit := head_digits ds (dss.flatMap ('.' :: ·.1) ++ '\n' :: rest)
      have dot : ('.'.isDigit || ('.' == '.' &&
          (ds.1 ++ (dss.flatMap ('.' :: ·.1) ++ '\n' :: rest)).head?.any Char.isDigit)) = true := by
        rw [digit]
        rfl
      have text : (ds :: dss).flatMap ('.' :: ·.1) ++ '\n' :: rest =
          '.' :: (ds.1 ++ (dss.flatMap ('.' :: ·.1) ++ '\n' :: rest)) := by
        simp
      rw [text, versionLength, if_pos dot, versionLength_digits ds.2.2, ih]
      simp
  rw [Version.literal, List.append_assoc, versionLength_digits v.first.2.2, further,
    List.length_append]

/-! Statements begin with a keyword. These equations hold by definition; unfolding would evaluate the
keyword instead. -/

theorem Abstract.Version.render_eq (v : Version) :
    v.render = "version".toList ++ ' ' :: v.literal := rfl

theorem Abstract.Import.render_eq (i : Import) :
    i.render = "import".toList ++ (' ' :: i.path.render ++ (' ' :: "as".toList ++
      (' ' :: i.name.render ++ withOptions (·.1.toList) i.options))) := rfl

theorem Abstract.UsesClause.render_eq (u : UsesClause) : u.render = "uses".toList ++ u.inside := rfl

theorem defaultWords_eq : defaultWords = "resolver".toList ++ ' ' :: "default".toList := rfl

theorem endsWord_clause (u : UsesClause) (rest : List Char) : EndsWord (u.inside ++ '\n' :: rest) := by
  obtain ⟨scope, method, options, resolves⟩ := u
  cases scope with
  | some w =>
    obtain ⟨all, ne⟩ := Parse.resolverScopes_word w.1 w.2
    have text := endsWord_word all ne (method.elim [] (' ' :: ·.render) ++
      withOptions ResolverOption.render options ++ '\n' :: rest)
    simpa [UsesClause.inside] using text
  | none =>
    cases method with
    | none => exact absurd resolves (by simp)
    | some m =>
      have text := endsWord_word m.name.all_word (List.cons_ne_nil _ _)
        ((m.arguments.elim [] fun args => '(' :: (args.render Argument.render ++ [')'])) ++
          withOptions ResolverOption.render options ++ '\n' :: rest)
      simpa [UsesClause.inside, Method.render] using text

namespace Parse

variable {limits : Limits} {optional : Bool} {rest tail : List Char}

theorem versionLiteral_accepts (v : Version) :
    Accepts limits versionLiteral v.literal ('\n' :: rest)
      (Finds (·.outline = .leaf .versionLiteral v.literal)) := by
  apply cursor_accepts.look
  intro c hc
  have digit : c.peek.any Char.isDigit = true := by
    rw [Cursor.peek, hc, Version.literal, List.append_assoc]
    exact head_digits v.first _
  rw [if_pos digit, hc, versionLength_literal]
  exact (takeLeaf_accepts rfl).someOf

theorem versionStatement_accepts (v : Version) :
    Accepts limits versionStatement v.render ('\n' :: rest) (·.outline = v.outline) := by
  apply cursor_accepts.look
  intro start _
  have front : Stops opensBlank (v.literal ++ '\n' :: rest) := by
    rw [Version.literal, List.append_assoc]
    exact stops_of_word (digits_word v.first) v.first.2.1 _
  have literal : Accepts limits (afterBlank versionLiteral) (' ' :: v.literal) ('\n' :: rest)
      (Finds (·.outline = .leaf .versionLiteral v.literal)) :=
    (versionLiteral_accepts v).afterBlank [' '] rfl front
  rw [v.render_eq]
  apply (advanceBy_accepts rfl).bind
  intro _ _
  apply (literal.orReport _).last
  rintro _ ⟨n, rfl, hn⟩
  exact branchFrom_accepts (Node.outlines_singleton hn)

theorem versionSection_accepts (v : Version) (stop : Stops opensBlank tail) :
    Accepts limits versionSection (line v.render) tail (Node.outlines · = [v.outline]) := by
  apply cursor_accepts.look
  intro c hc
  have key : c.atKeyword "version" = true := by
    have text : line v.render ++ tail = "version".toList ++
        (' ' :: (v.first.1 ++ (v.further.flatMap ('.' :: ·.1) ++ '\n' :: tail))) := by
      simp [line, v.render_eq, Version.literal]
    rw [text] at hc
    exact Cursor.atKeyword_of_word hc rfl (endsWord_word (digits_word v.first) v.first.2.1 _)
  rw [if_pos key, line]
  apply (versionStatement_accepts v).bind
  intro n hn
  apply (skipBlank_accepts rfl stop).last
  intro _ _
  exact .pure (Node.outlines_singleton hn)

theorem versionSection_declines
    (h : startsRule tail = true ∨ tail.takeWhile isWordChar ≠ "version".toList) :
    Accepts limits versionSection [] tail (Node.outlines · = []) := by
  apply cursor_accepts.look
  rintro c rfl
  rw [Cursor.not_atKeyword rfl h]
  exact .pure Node.outlines_nil

/-! ## Imports -/

theorem importFlags_word : ∀ w ∈ importFlags, w.toList.all isWordChar = true ∧ w.toList ≠ [] := by
  decide

theorem nextImportFlag_accepts (w : { w : String // w ∈ importFlags }) (blank tail : List Char)
    (hb : blank.all isBlank = true) (ends : EndsWord tail) :
    Accepts limits nextImportFlag (blank ++ w.1.toList) tail
      (Finds (Node.outlines · = [.leaf .importFlag w.1.toList])) := by
  obtain ⟨w, hw⟩ := w
  obtain ⟨all, ne⟩ := importFlags_word w hw
  apply (seekListItem_accepts blank hb .importFlagMissing all ne ends).bind
  rintro _ ⟨_, rfl, -⟩
  apply cursor_accepts.look
  intro c hc
  simp only [Cursor.peekWord?_eq hc all ne ends.stops, if_pos hw]
  apply (takeLeaf_accepts String.length_toList.symm).last
  intro n hn
  exact .pure ⟨[n], rfl, Node.outlines_singleton hn⟩

theorem importOptions_accepts (flags : Series { w : String // w ∈ importFlags })
    (next : NextLine optional rest) :
    Accepts limits importOptions (' ' :: flags.render (·.1.toList)) ('\n' :: rest)
      (·.outline = .branch .importOptions (flags.toList.map (.leaf .importFlag ·.1.toList))) := by
  have front : Stops opensBlank (flags.render (·.1.toList) ++ '\n' :: rest) := by
    obtain ⟨all, ne⟩ := importFlags_word flags.first.1 flags.first.2
    rw [Series.render, List.append_assoc]
    exact stops_of_word all ne _
  exact optionList_accepts .importOptions flags front nextImportFlag_accepts next

theorem aliasName_accepts (i : Identifier) (ends : EndsWord tail) :
    Accepts limits aliasName i.render tail (Finds (·.outline = i.outline)) := by
  apply cursor_accepts.look
  intro c hc
  have noRule : c.atRuleStart = false := by
    rw [Cursor.atRuleStart, hc, startsRule_append i.all_word ends]
  rw [noRule]
  exact identifier_accepts i ends.stops

/-- The options of an import. The line behind them has to tell that there are none. -/
theorem importTail_options (name : Node) (flags : Option (Series { w : String // w ∈ importFlags }))
    (next : NextLine flags.isNone rest) :
    Accepts limits (do
      if ← eatWordAfterBlank "with" then
        return [name, ← importOptions]
      else
        return [name]) (withOptions (·.1.toList) flags) ('\n' :: rest)
      (Node.outlines · = name.outline :: flags.toList.map fun flags =>
        .branch .importOptions (flags.toList.map (.leaf .importFlag ·.1.toList))) := by
  cases flags with
  | none =>
    apply (with_declines next).last
    rintro _ rfl
    refine .pure ?_
    rw [Node.outlines_cons, Node.outlines_nil]
    rfl
  | some flags =>
    show Accepts limits _ (' ' :: "with".toList ++ ' ' :: flags.render (·.1.toList)) _ _
    apply with_accepts.bind
    rintro _ rfl
    apply (importOptions_accepts flags next).last
    intro n hn
    refine .pure ?_
    rw [Node.outlines_cons, Node.outlines_cons, hn, Node.outlines_nil]
    rfl

theorem importStatement_accepts (i : Import) (next : NextLine i.options.isNone rest) :
    Accepts limits importStatement i.render ('\n' :: rest) (·.outline = i.outline) := by
  have name : Accepts limits (afterBlank aliasName) (' ' :: i.name.render)
      (withOptions (·.1.toList) i.options ++ '\n' :: rest) (Finds (·.outline = i.name.outline)) :=
    (aliasName_accepts i.name (endsWord_options _ i.options rest)).afterBlank [' '] rfl
      (opensBlank_of_isIdentStart i.name.first_start)
  have path : Accepts limits (afterBlank string) (' ' :: i.path.render)
      (' ' :: "as".toList ++ (' ' :: i.name.render ++ withOptions (·.1.toList) i.options) ++ '\n' :: rest)
      (Finds (·.outline = i.path.outline)) :=
    (string_accepts i.path).afterBlank [' '] rfl (Stops.cons_iff.2 rfl)
  have word : Accepts limits (eatWordAfterBlank "as") (' ' :: "as".toList)
      (' ' :: i.name.render ++ withOptions (·.1.toList) i.options ++ '\n' :: rest) (· = true) :=
    eatWordAfterBlank_accepts [' '] rfl rfl (by simp) (Stops.cons_iff.2 rfl)
  apply cursor_accepts.look
  intro start _
  rw [i.render_eq]
  apply (advanceBy_accepts rfl).bind
  intro _ _
  apply (path.orReport _).bind
  rintro _ ⟨p, rfl, hp⟩
  have parts : Accepts limits importTail
      (' ' :: "as".toList ++ (' ' :: i.name.render ++ withOptions (·.1.toList) i.options)) ('\n' :: rest)
      (Node.outlines · = i.name.outline :: i.options.toList.map fun flags =>
        .branch .importOptions (flags.toList.map (.leaf .importFlag ·.1.toList))) := by
    apply word.bind
    rintro _ rfl
    apply (name.orReport _).bind
    rintro _ ⟨n, rfl, hn⟩
    rw [← hn]
    exact importTail_options n i.options next
  apply parts.last
  intro ns hns
  exact branchFrom_accepts (by rw [Node.outlines_cons, hp, hns])

theorem nextImport_accepts (i : Import) (next : NextLine i.options.isNone rest) :
    Accepts limits nextImport (line i.render) rest (Finds (·.outline = i.outline)) := by
  apply cursor_accepts.look
  intro c hc
  have key : c.atKeyword "import" = true := by
    rw [line, i.render_eq, List.append_assoc, List.append_assoc] at hc
    exact Cursor.atKeyword_of_word hc rfl ⟨Stops.cons_iff.2 rfl, rfl⟩
  rw [if_pos key]
  apply errorsFull_accepts.look
  rintro _ rfl
  apply (importStatement_accepts i next).counting
  intro n hn
  apply (skipBlank_accepts rfl next.stops).last
  intro _ _
  exact .pure ⟨n, rfl, hn⟩

theorem nextImport_declines
    (h : startsRule tail = true ∨ tail.takeWhile isWordChar ≠ "import".toList) :
    Accepts limits nextImport [] tail (· = none) := by
  apply cursor_accepts.look
  rintro c rfl
  rw [Cursor.not_atKeyword rfl h]
  exact .pure rfl

/-! ## The default resolver -/

theorem usesWithClause_accepts (u : UsesClause) (hu : u.unambiguous = true)
    (next : NextRule u.options.isNone rest) :
    Accepts limits usesWithClause u.render ('\n' :: rest) (Finds (·.outline = u.outline)) := by
  have behind : EndsWord (u.inside ++ '\n' :: rest) := endsWord_clause u rest
  apply cursor_accepts.look
  intro start _
  rw [u.render_eq]
  apply (eatWord_accepts rfl behind.stops).bind
  rintro _ rfl
  exact (usesClause_accepts u hu next).someOf

theorem resolverDefault_accepts (u : UsesClause) (hu : u.unambiguous = true)
    (next : NextRule u.options.isNone rest) :
    Accepts limits resolverDefault (defaultWords ++ ' ' :: u.render) ('\n' :: rest)
      (·.outline = .branch .resolverDefault [u.outline]) := by
  have clause : Accepts limits (afterBlank usesWithClause) (' ' :: u.render) ('\n' :: rest)
      (Finds (·.outline = u.outline)) :=
    (usesWithClause_accepts u hu next).afterBlank [' '] rfl (Stops.cons_iff.2 rfl)
  have words : Accepts limits
      (move fun c => ((c.advanceBy "resolver".length).skipBlank).advanceBy "default".length)
      defaultWords (' ' :: u.render ++ '\n' :: rest) fun _ => True := by
    intro s hs room
    have blank : blankRun false (s.cursor.advanceBy "resolver".length).rest = 1 := by
      rw [Cursor.rest_advanceBy, hs]
      rfl
    rw [ensures_move, Cursor.skipBlank, blank, ← Cursor.advanceBy_add, ← Cursor.advanceBy_add]
    exact ⟨rfl, trivial⟩
  apply cursor_accepts.look
  intro start _
  apply words.bind
  intro _ _
  apply (clause.orReport _).last
  rintro _ ⟨n, rfl, hn⟩
  exact branchFrom_accepts (Node.outlines_singleton hn)

theorem resolverSection_accepts (u : UsesClause) (hu : u.unambiguous = true)
    (next : NextRule u.options.isNone rest) :
    Accepts limits resolverSection (line (defaultWords ++ ' ' :: u.render)) rest
      (Node.outlines · = [.branch .resolverDefault [u.outline]]) := by
  have here : Accepts limits atResolverDefault [] (line (defaultWords ++ ' ' :: u.render) ++ rest)
      (· = true) := by
    apply cursor_accepts.last
    intro c hc
    rw [line, defaultWords_eq, List.append_assoc, List.append_assoc, List.append_assoc] at hc
    have key : c.atKeyword "resolver" = true :=
      Cursor.atKeyword_of_word hc rfl ⟨Stops.cons_iff.2 rfl, rfl⟩
    have blank : blankRun false (c.advanceBy "resolver".length).rest = 1 := by
      rw [Cursor.rest_advanceBy, hc]
      rfl
    have word : ((c.advanceBy "resolver".length).skipBlank).checkWord "default" = true := by
      rw [Cursor.checkWord_iff rfl, Cursor.skipBlank, blank, ← Cursor.advanceBy_add,
        Cursor.rest_advanceBy, hc]
      rfl
    exact .pure (by rw [key, word, Bool.and_self])
  apply here.look
  rintro _ rfl
  apply (resolverDefault_accepts u hu next).counting
  intro n hn
  apply (skipBlank_accepts rfl next.nextLine.stops).last
  intro _ _
  exact .pure (Node.outlines_singleton hn)

theorem resolverSection_declines (h : rest = [] ∨ startsRule rest = true) :
    Accepts limits resolverSection [] rest (Node.outlines · = []) := by
  have absent : Accepts limits atResolverDefault [] rest (· = false) := by
    apply cursor_accepts.last
    rintro c rfl
    refine .pure ?_
    have key : c.atKeyword "resolver" = false := by
      rcases h with h | h
      · exact Cursor.not_atKeyword rfl (.inr (by simp [h]))
      · exact Cursor.not_atKeyword rfl (.inl h)
    rw [key, Bool.false_and]
  apply absent.look
  rintro _ rfl
  exact .pure Node.outlines_nil

/-! ## Rules -/

theorem singleEquals_accepts : Accepts limits singleEquals ['='] (' ' :: tail) (Finds fun _ => True) := by
  apply cursor_accepts.look
  intro c hc
  rw [hc]
  apply advance_accepts.last
  intro _ _
  exact .pure ⟨(), rfl, trivial⟩

/-- How a rule goes on behind its body. -/
theorem closes_clause (clause : Option UsesClause) (h : rest = [] ∨ startsRule rest = true) :
    Closes (clause.elim [] (' ' :: ·.render) ++ '\n' :: rest) := by
  cases clause with
  | none => exact .line h
  | some u =>
    have text : (some u).elim [] (' ' :: ·.render) ++ '\n' :: rest =
        ' ' :: ("uses".toList ++ (u.inside ++ '\n' :: rest)) := by
      simp [u.render_eq]
    rw [text]
    exact .clause (endsWord_clause u rest)

theorem clausePart_accepts (clause : Option UsesClause) (h : clause.all UsesClause.unambiguous = true)
    (next : NextRule (clause.any (·.options.isNone)) rest) :
    Accepts limits (afterBlank ruleUses) (clause.elim [] (' ' :: ·.render)) ('\n' :: rest)
      (Node.outlines ·.toList = clause.toList.map UsesClause.outline) := by
  cases clause with
  | none =>
    have nothing : Accepts limits ruleUses [] rest (· = none) := by
      apply cursor_accepts.look
      rintro c rfl
      have key : c.atKeyword "uses" = false := by
        rcases next.rule with h | h
        · exact Cursor.not_atKeyword rfl (.inr (by simp [h]))
        · exact Cursor.not_atKeyword rfl (.inl h)
      rw [key]
      exact .pure rfl
    refine (nothing.afterBlank_none ['\n'] rfl next.nextLine.stops).mono ?_
    rintro _ rfl
    exact Node.outlines_nil
  | some u =>
    have clause : Accepts limits ruleUses u.render ('\n' :: rest) (Finds (·.outline = u.outline)) := by
      apply cursor_accepts.look
      intro c hc
      have key : c.atKeyword "uses" = true := by
        rw [u.render_eq, List.append_assoc] at hc
        exact Cursor.atKeyword_of_word hc rfl (endsWord_clause u rest)
      rw [if_pos key]
      exact usesWithClause_accepts u h next
    refine (clause.afterBlank [' '] rfl (Stops.cons_iff.2 rfl)).mono ?_
    rintro _ ⟨n, rfl, hn⟩
    exact Node.outlines_singleton hn

/-- What follows the name of a rule, if its body and its clause are accepted. -/
theorem ruleTail_of_parts (name : String) {e : Expression} {body clause : List Char} {parts : List Outline}
    (he : e.Written body) (hd : e.depth < limits.depth) (closes : Closes (clause ++ tail))
    (hclause : Accepts limits (afterBlank ruleUses) clause tail (Node.outlines ·.toList = parts)) :
    Accepts limits (ruleTail name) ([' ', '='] ++ (' ' :: body ++ clause)) tail
      (fun found => Node.outlines found.1 = e.outline :: parts ∧ found.2 = true) := by
  have equals : Accepts limits (afterBlank singleEquals) [' ', '='] (' ' :: body ++ clause ++ tail)
      (Finds fun _ => True) :=
    singleEquals_accepts.afterBlank [' '] rfl (Stops.cons_iff.2 rfl)
  have expression : Accepts limits (afterBlank expression) (' ' :: body) (clause ++ tail)
      (Finds (·.outline = e.outline)) :=
    (expression_accepts he hd closes).afterBlank [' '] rfl (he.stops_blank _)
  apply (equals.orReport _).bind
  rintro _ ⟨_, rfl, -⟩
  apply (expression.orReport _).bind
  rintro _ ⟨b, rfl, hb⟩
  apply hclause.last
  intro clause hc
  refine .pure ⟨?_, rfl⟩
  rw [Node.outlines_cons, hb, hc]

theorem ruleTail_accepts (name : String) (r : Abstract.Rule) (hr : r.unambiguous = true)
    (deep : limits.depth = Limits.standard.depth)
    (next : NextRule (r.clause.any (·.options.isNone)) rest) :
    Accepts limits (ruleTail name)
      ([' ', '='] ++ (' ' :: r.body.render ++ r.clause.elim [] (' ' :: ·.render))) ('\n' :: rest)
      (fun parts => Node.outlines parts.1 =
        r.body.outline :: r.clause.toList.map UsesClause.outline ∧ parts.2 = true) := by
  simp only [Abstract.Rule.unambiguous, Bool.and_eq_true, decide_eq_true_eq] at hr
  obtain ⟨⟨hbody, hdepth⟩, hclause⟩ := hr
  exact ruleTail_of_parts name (r.body.written_render hbody) (deep ▸ hdepth) (closes_clause r.clause next.rule)
    (clausePart_accepts r.clause hclause next)

/-- A rule, if what follows its name is accepted. -/
theorem rule_of_tail (name : Identifier) {text : List Char} {parts : List Outline}
    (stop : Stops isWordChar (text ++ tail))
    (h : ∀ word, Accepts limits (ruleTail word) text tail
      fun found => Node.outlines found.1 = parts ∧ found.2 = true) :
    Accepts limits rule (name.render ++ text) tail (Finds fun found =>
      found.node.outline = .branch .ruleDefinition (name.outline :: parts) ∧ found.clean = true) := by
  intro s hs room
  have front := hs
  rw [List.append_assoc] at front
  simp only [rule, ensures_bind, ensures_cursor, ensures_errorCount]
  refine (identifier_accepts name stop s front room).mono ?_
  rintro _ t ⟨rfl, name, rfl, hname⟩
  simp only [ensures_bind]
  refine (h _ _ (ParseState.rest_past front) room).mono ?_
  rintro ⟨parts, complete⟩ t ⟨rfl, hparts, hcomplete⟩
  rw [ParseState.past_past, ← List.length_append, ensures_branchFrom, ensures_errorCount, ensures_pure]
  refine ⟨rfl, _, rfl, ?_, ?_⟩
  · rw [Node.outline_branch, Node.outlines_cons, hname, hparts]
  · show (complete && s.errors.length == s.errors.length) = true
    rw [show complete = true from hcomplete, beq_self_eq_true, Bool.and_self]

theorem rule_accepts (r : Abstract.Rule) (hr : r.unambiguous = true)
    (deep : limits.depth = Limits.standard.depth)
    (next : NextRule (r.clause.any (·.options.isNone)) rest) :
    Accepts limits rule r.render ('\n' :: rest)
      (Finds fun found => found.node.outline = r.outline ∧ found.clean = true) := by
  rw [Abstract.Rule.render, Abstract.Rule.outline]
  exact rule_of_tail r.name (Stops.cons_iff.2 rfl) fun word => ruleTail_accepts word r hr deep next

/-- A rule and the blanks behind it. -/
theorem nextRule_of_rule {text blank : List Char} {o : Outline}
    (h : Accepts limits rule text (blank ++ tail) (Finds fun found => found.node.outline = o ∧ found.clean = true))
    (read : text ≠ []) (hb : blank.all isBlank = true) (stop : Stops opensBlank tail) :
    Accepts limits nextRule (text ++ blank) tail (Finds (·.outline = o)) := by
  apply cursor_accepts.look
  intro c hc
  apply errorsFull_accepts.look
  rintro _ rfl
  have more : c.atEnd = false := by
    rw [Cursor.atEnd, hc, List.isEmpty_eq_false_iff]
    simp [read]
  rw [more]
  apply h.bind
  rintro _ ⟨found, rfl, hnode, clean⟩
  simp only [clean]
  apply (skipBlank_accepts hb stop).last
  intro _ _
  exact .pure ⟨found.node, rfl, hnode⟩

theorem nextRule_accepts (r : Abstract.Rule) (hr : r.unambiguous = true)
    (deep : limits.depth = Limits.standard.depth)
    (next : NextRule (r.clause.any (·.options.isNone)) rest) :
    Accepts limits nextRule (line r.render) rest (Finds (·.outline = r.outline)) :=
  nextRule_of_rule (rule_accepts r hr deep next) (List.cons_ne_nil _ _) rfl next.nextLine.stops

theorem nextRule_declines : Accepts limits nextRule [] [] (· = none) := by
  apply cursor_accepts.look
  intro c hc
  apply errorsFull_accepts.look
  rintro _ rfl
  have done : c.atEnd = true := by
    rw [Cursor.atEnd, hc]
    rfl
  rw [done]
  exact .pure rfl

/-! ## Documents -/

/-- Rules start with a name and `=`. -/
theorem nextRule_of_withApart {optional : Bool} {rules : List Abstract.Rule}
    (h : withApart optional rules = true) : NextRule optional (rules.flatMap (line ·.render)) := by
  cases rules with
  | nil => exact ⟨.inl rfl, fun _ => by decide⟩
  | cons r rules =>
    have text : (r :: rules).flatMap (line ·.render) = r.name.render ++ ' ' :: '=' ::
        (' ' :: r.body.render ++ r.clause.elim [] (' ' :: ·.render) ++ ['\n'] ++
          rules.flatMap (line ·.render)) := by
      simp [line, Abstract.Rule.render]
    rw [text]
    refine ⟨.inr (r.name.startsRule _ (by simp)), ?_⟩
    rintro rfl
    rw [Stops.takeWhile_append (Stops.cons_iff.2 rfl) r.name.all_word]
    intro same
    rw [withApart, Identifier.word, same, String.ofList_toList] at h
    cases h

/-- **The rules of a document are accepted as they are rendered.** -/
theorem rules_accept {optional : Bool} (rules : List Abstract.Rule)
    (h : rules.all Abstract.Rule.unambiguous = true) (apart : withApart optional rules = true)
    (deep : limits.depth = Limits.standard.depth) :
    AcceptsMany limits nextRule (rules.flatMap (line ·.render)) []
      (Node.outlines · = rules.map Abstract.Rule.outline) := by
  induction rules generalizing optional with
  | nil => exact .stop nextRule_declines Node.outlines_nil
  | cons r rules ih =>
    rw [List.all_cons, Bool.and_eq_true] at h
    rw [withApart, Bool.and_eq_true] at apart
    have next := nextRule_of_withApart apart.2
    have first : Accepts limits nextRule (line r.render) (rules.flatMap (line ·.render) ++ [])
        (Finds (·.outline = r.outline)) := by
      rw [List.append_nil]
      exact nextRule_accepts r h.1 deep next
    rw [List.flatMap_cons]
    refine first.cons (by simp [line]) (ih h.2 apart.2) ?_
    intro n ns hn hns
    rw [Node.outlines_cons, hn, hns, List.map_cons]

/-- The keyword of another statement is no option of the one in front of it. -/
theorem nextLine_keyword {word : String} (all : word.toList.all isWordChar = true)
    (ne : word.toList ≠ []) (other : word.toList ≠ "with".toList) (stop : Stops isWordChar tail) :
    NextLine optional (word.toList ++ tail) := by
  refine ⟨stops_of_word all ne tail, ?_, ?_⟩
  · cases hw : word.toList with
    | nil => exact absurd hw ne
    | cons c cs =>
      rw [hw, List.all_cons, Bool.and_eq_true] at all
      rintro ⟨⟩
      cases all.1
  · intro _
    rw [stop.takeWhile_append all]
    exact other

/-- **The imports of a document are accepted as they are rendered**, if what follows the last one is
neither an import nor its options. -/
theorem imports_accept (imports : List Import)
    (stop : startsRule tail = true ∨ tail.takeWhile isWordChar ≠ "import".toList)
    (last : ∀ i, imports.getLast? = some i → NextLine i.options.isNone tail) :
    AcceptsMany limits nextImport (imports.flatMap (line ·.render)) tail
      (Node.outlines · = imports.map Import.outline) := by
  induction imports with
  | nil => exact .stop (nextImport_declines stop) Node.outlines_nil
  | cons i imports ih =>
    have next : NextLine i.options.isNone (imports.flatMap (line ·.render) ++ tail) := by
      cases imports with
      | nil => exact last i rfl
      | cons j imports =>
        rw [List.flatMap_cons, line, j.render_eq, List.append_assoc, List.append_assoc,
          List.append_assoc]
        exact nextLine_keyword rfl (by decide) (by decide) (Stops.cons_iff.2 rfl)
    have rest : ∀ i, imports.getLast? = some i → NextLine i.options.isNone tail := by
      intro k hk
      refine last k ?_
      cases imports with
      | nil => cases hk
      | cons j imports => rw [List.getLast?_cons_cons, hk]
    rw [List.flatMap_cons]
    refine (nextImport_accepts i next).cons (by simp [line]) (ih rest) ?_
    intro n ns hn hns
    rw [Node.outlines_cons, hn, hns, List.map_cons]

/-- The section for the default resolver. -/
theorem resolver_accepts (resolver : Option UsesClause)
    (h : resolver.all UsesClause.unambiguous = true)
    (next : NextRule (resolver.any (·.options.isNone)) rest) :
    Accepts limits resolverSection (resolver.elim [] (line <| defaultWords ++ ' ' :: ·.render)) rest
      (Node.outlines · = resolver.toList.map fun u => .branch .resolverDefault [u.outline]) := by
  cases resolver with
  | none => exact resolverSection_declines next.rule
  | some u => exact resolverSection_accepts u h next

/-- How the sections of a document start: with a rule, with one of some keywords, or not at all. -/
def StartsWith (words : List String) (text : List Char) : Prop :=
  text = [] ∨ startsRule text = true ∨ ∃ w ∈ words, text.takeWhile isWordChar = w.toList

namespace StartsWith

variable {words : List String} {text : List Char}

theorem stops (h : StartsWith words text) (nonempty : "" ∉ words) : Stops opensBlank text := by
  rcases h with rfl | h | ⟨w, hw, h⟩
  · exact .nil
  · obtain ⟨c, rest, rfl, hc⟩ := head_of_startsRule h
    exact opensBlank_of_isIdentStart hc
  · have ne : w.toList ≠ [] := by
      rw [ne_eq, String.toList_eq_nil_iff]
      rintro rfl
      exact nonempty hw
    have split := List.takeWhile_append_dropWhile (p := isWordChar) (l := text)
    rw [h] at split
    have all : w.toList.all isWordChar = true := by
      rw [← h]
      exact List.all_takeWhile
    rw [← split]
    exact stops_of_word all ne _

/-- A keyword that is not among those is not what the text starts with. -/
theorem noKeyword {word : String} (h : StartsWith words text) (other : word ∉ words)
    (ne : word.toList ≠ []) :
    startsRule text = true ∨ text.takeWhile isWordChar ≠ word.toList := by
  rcases h with rfl | h | ⟨w, hw, h⟩
  · exact .inr (fun e => ne e.symm)
  · exact .inl h
  · refine .inr fun e => other ?_
    rw [← String.toList_inj.1 (h.symm.trans e)]
    exact hw

theorem more (h : StartsWith words text) (word : String) : StartsWith (word :: words) text := by
  rcases h with h | h | ⟨w, hw, h⟩
  · exact .inl h
  · exact .inr (.inl h)
  · exact .inr (.inr ⟨w, List.mem_cons_of_mem _ hw, h⟩)

theorem keyword {word : String} {tail : List Char} (all : word.toList.all isWordChar = true)
    (stop : Stops isWordChar tail) : StartsWith (word :: words) (word.toList ++ tail) :=
  .inr (.inr ⟨word, List.mem_cons_self, stop.takeWhile_append all⟩)

end StartsWith

theorem resolver_starts (resolver : Option UsesClause) (h : StartsWith [] rest) :
    StartsWith ["resolver"] (resolver.elim [] (line <| defaultWords ++ ' ' :: ·.render) ++ rest) := by
  cases resolver with
  | none => exact h.more "resolver"
  | some u =>
    rw [Option.elim_some, line, defaultWords_eq, List.append_assoc, List.append_assoc,
      List.append_assoc]
    exact .keyword rfl (Stops.cons_iff.2 rfl)

theorem imports_start (imports : List Import) (h : StartsWith ["resolver"] rest) :
    StartsWith ["import", "resolver"] (imports.flatMap (line ·.render) ++ rest) := by
  cases imports with
  | nil => exact h.more "import"
  | cons i imports =>
    rw [List.flatMap_cons, line, i.render_eq, List.append_assoc, List.append_assoc,
      List.append_assoc]
    exact .keyword rfl (Stops.cons_iff.2 rfl)

theorem version_starts (version : Option Version) (h : StartsWith ["import", "resolver"] rest) :
    StartsWith ["version", "import", "resolver"] (version.elim [] (line ·.render) ++ rest) := by
  cases version with
  | none => exact h.more "version"
  | some v =>
    rw [Option.elim_some, line, v.render_eq, List.append_assoc, List.append_assoc]
    exact .keyword rfl (Stops.cons_iff.2 rfl)

theorem version_accepts (version : Option Version) (h : StartsWith ["import", "resolver"] tail) :
    Accepts limits versionSection (version.elim [] (line ·.render)) tail
      (Node.outlines · = version.toList.map Version.outline) := by
  cases version with
  | none => exact versionSection_declines (h.noKeyword (by decide) (by decide))
  | some v => exact versionSection_accepts v (h.stops (by decide))

/-- **Documents are accepted as they are rendered.** -/
theorem document_accepts (d : Document) (h : d.unambiguous = true)
    (deep : limits.depth = Limits.standard.depth) :
    Accepts limits document d.render [] (·.outline = d.outline) := by
  obtain ⟨version, imports, resolver, rules⟩ := d
  simp only [Document.unambiguous, Bool.and_eq_true] at h
  obtain ⟨⟨hresolver, hrules⟩, apart⟩ := h
  have nextRule := nextRule_of_withApart apart
  have rulesStart : StartsWith [] (rules.flatMap (line ·.render)) := by
    rcases nextRule.rule with h | h
    · exact .inl h
    · exact .inr (.inl h)
  have resolverStarts := resolver_starts resolver rulesStart
  have importsStart := imports_start imports resolverStarts
  have front := (version_starts version importsStart).stops (by decide)
  have behindResolver : NextRule (resolver.any (·.options.isNone)) (rules.flatMap (line ·.render)) := by
    cases resolver with
    | none => exact ⟨nextRule.rule, fun h => absurd h (by simp)⟩
    | some u => exact nextRule
  have behindImports (i : Import) (hi : imports.getLast? = some i) : NextLine i.options.isNone
      (resolver.elim [] (line <| defaultWords ++ ' ' :: ·.render) ++ rules.flatMap (line ·.render)) := by
    cases resolver with
    | none =>
      simp only [Document.rulesBehindOption, Option.elim_none, hi, Option.any_some] at nextRule
      exact nextRule.nextLine
    | some u =>
      rw [Option.elim_some, line, defaultWords_eq, List.append_assoc, List.append_assoc,
        List.append_assoc]
      exact nextLine_keyword rfl (by decide) (by decide) (Stops.cons_iff.2 rfl)
  apply cursor_accepts.look
  intro start _
  apply Accepts.look
  · rw [List.append_nil]
    exact skipBlank_accepts rfl front
  intro _ _
  apply Accepts.bind
  · rw [List.append_nil]
    exact version_accepts version importsStart
  intro vs hvs
  apply Accepts.bind
  · rw [List.append_nil]
    exact (imports_accept imports (resolverStarts.noKeyword (by decide) (by decide))
      behindImports).many
  intro is his
  apply Accepts.bind
  · rw [List.append_nil]
    exact resolver_accepts resolver hresolver behindResolver
  intro us hus
  apply (rules_accept rules hrules apart deep).many.last
  intro rs hrs
  refine branchFrom_accepts ?_
  rw [Node.outlines_append, Node.outlines_append, Node.outlines_append, hvs, his, hus, hrs]

end Parse

end PatternRules

import PatternRules.Proofs.Ensures
import PatternRules.Proofs.Written
import PatternRules.Source.Cursor.Lemmas

/-!
What a reading accepts. `Accepts limits p text tail post` says that `p`, read in front of `text` with
`tail` behind it, reads `text` to its end and no further, complains of nothing, and gives a result that
satisfies `post`. Two readings in a row accept two texts in a row (`Accepts.bind`), where the second text
is part of what follows the first: what may follow a text is a condition on `tail`.
-/

namespace PatternRules

/-- The state after reading `n` characters. -/
def ParseState.past (s : ParseState) (n : Nat) : ParseState :=
  { s with cursor := s.cursor.advanceBy n }

namespace ParseState

theorem past_past (s : ParseState) (m n : Nat) : (s.past m).past n = s.past (m + n) := by
  simp only [past, Cursor.advanceBy_add]

theorem rest_past {s : ParseState} {text tail : List Char} (h : s.cursor.rest = text ++ tail) :
    (s.past text.length).cursor.rest = tail := by
  simp [past, h]

theorem textSince_past {s : ParseState} {text tail : List Char} (h : s.cursor.rest = text ++ tail) :
    (s.past text.length).cursor.textSince s.cursor = text := by
  have read : (s.past text.length).cursor.pos - s.cursor.pos = text.length := by
    rw [past, Cursor.pos_advanceBy, h, List.length_append]
    omega
  rw [Cursor.textSince, read, h, List.take_left]

end ParseState

/-- The next character, if there is one, does not satisfy `p`. -/
def Stops (p : Char → Bool) (tail : List Char) : Prop := tail.head?.any p = false

namespace Stops

variable {p : Char → Bool} {tail : List Char}

theorem nil : Stops p [] := rfl

@[simp]
theorem cons_iff {c : Char} : Stops p (c :: tail) ↔ p c = false := Iff.rfl

theorem takeWhile_eq (h : Stops p tail) : tail.takeWhile p = [] := by
  cases tail with
  | nil => rfl
  | cons c tail => simp [cons_iff.1 h]

theorem dropWhile_eq (h : Stops p tail) : tail.dropWhile p = tail := by
  cases tail with
  | nil => rfl
  | cons c tail => simp [cons_iff.1 h]

/-- Of a text that satisfies `p`, and something that does not, just the text is a run of `p`. -/
theorem takeWhile_append {text : List Char} (h : Stops p tail) (all : text.all p = true) :
    (text ++ tail).takeWhile p = text := by
  rw [List.takeWhile_append_of_pos (by simpa using all), h.takeWhile_eq, List.append_nil]

theorem dropWhile_append {text : List Char} (h : Stops p tail) (all : text.all p = true) :
    (text ++ tail).dropWhile p = tail := by
  rw [List.dropWhile_append_of_pos (by simpa using all), h.dropWhile_eq]

theorem head_ne {c : Char} (h : Stops p tail) (hc : p c = true) : tail.head? ≠ some c := by
  intro first
  rw [Stops, first, Option.any_some, hc] at h
  cases h

theorem mono {q : Char → Bool} (h : Stops p tail) (weaker : ∀ c, p c = false → q c = false) :
    Stops q tail := by
  cases tail with
  | nil => exact .nil
  | cons c tail => exact weaker c h

end Stops

theorem ne_of_kind {p : Char → Bool} {c d : Char} (h : p c = true) (hd : p d = false) : c ≠ d := by
  rintro rfl
  rw [h] at hd
  cases hd

/-- Characters that start blanks. -/
def opensBlank (c : Char) : Bool := isBlank c || c == '#'

/-- No character of a kind starts blanks, if none of those that do is of that kind. -/
theorem opensBlank_of_kind {p : Char → Bool} (excluded : [' ', '\t', '\r', '\n', '#'].any p = false)
    {c : Char} (h : p c = true) : opensBlank c = false := by
  cases blank : opensBlank c with
  | false => rfl
  | true =>
    have member : c ∈ [' ', '\t', '\r', '\n', '#'] := by
      simpa [opensBlank, isBlank, isInlineBlank, or_assoc] using blank
    exact absurd h (List.any_eq_false.1 excluded c member)

theorem blankRun_comment {line : List Char} (h : '\n' ∉ line) (rest : List Char) :
    blankRun true (line ++ '\n' :: rest) = line.length + 1 + blankRun false rest := by
  induction line with
  | nil =>
    simp only [List.nil_append, blankRun, bne_self_eq_false, if_true, List.length_nil]
    omega
  | cons c line ih =>
    rw [List.mem_cons, not_or] at h
    have other : (c != '\n') = true := by
      rw [bne_iff_ne]
      exact fun e => h.1 e.symm
    simp only [List.cons_append, blankRun, other, if_true, ih h.2, List.length_cons]
    omega

theorem Gap.blankRun_append {gap rest : List Char} (h : Gap gap) (stop : Stops opensBlank rest) :
    blankRun false (gap ++ rest) = gap.length := by
  induction h with
  | nothing =>
    cases rest with
    | nil => rfl
    | cons c rest =>
      have hc := Stops.cons_iff.1 stop
      simp only [opensBlank, Bool.or_eq_false_iff, beq_eq_false_iff_ne] at hc
      simp [blankRun, hc]
  | blank h _ ih => simp [blankRun, h, ih]
  | @comment line gap h _ ih =>
    have hash : isBlank '#' = false := rfl
    rw [List.cons_append, List.append_assoc, List.cons_append, blankRun, if_neg Bool.false_ne_true, hash,
      if_neg Bool.false_ne_true, if_pos rfl, blankRun_comment h, ih]
    simp only [List.length_cons, List.length_append]
    omega

/-- Blanks are none of a kind, if none of the characters that start them is. -/
theorem Stops.behindGap {p : Char → Bool} (excluded : [' ', '\t', '\r', '\n', '#'].any p = false)
    {gap rest : List Char} (h : Gap gap) (stop : gap = [] → Stops p rest) : Stops p (gap ++ rest) := by
  have none {c : Char} (hc : opensBlank c = true) : p c = false := by
    rw [← Bool.not_eq_true]
    intro kind
    rw [opensBlank_of_kind excluded kind] at hc
    cases hc
  cases h with
  | nothing => exact stop rfl
  | blank h _ => exact none (by rw [opensBlank, h, Bool.true_or])
  | comment _ _ => exact none rfl

theorem blankRun_append {blank rest : List Char} (h : blank.all isBlank = true)
    (stop : Stops opensBlank rest) : blankRun false (blank ++ rest) = blank.length :=
  (Gap.of_blank h).blankRun_append stop

namespace Parse

variable {α β : Type} {limits : Limits}

/-- Something was found, and it satisfies `P`. -/
def Finds (P : α → Prop) (r : Option α) : Prop := ∃ a, r = some a ∧ P a

/-- In front of `text` and then `tail`, `p` reads `text` without complaint and gives a result that
satisfies `post`, as long as there is room for errors. -/
def Accepts (limits : Limits) (p : Parse α) (text tail : List Char) (post : α → Prop) : Prop :=
  ∀ s : ParseState, s.cursor.rest = text ++ tail → s.errors.length < limits.errors →
    Ensures limits s p fun a t => t = s.past text.length ∧ post a

namespace Accepts

variable {p : Parse α} {f : α → Parse β} {text text' tail : List Char} {post : α → Prop}
  {post' : β → Prop}

theorem mono {weak : α → Prop} (h : Accepts limits p text tail post)
    (weaker : ∀ a, post a → weak a) : Accepts limits p text tail weak := by
  intro s hs room
  refine (h s hs room).mono ?_
  rintro a t ⟨ht, ha⟩
  exact ⟨ht, weaker a ha⟩

protected theorem pure {a : α} (h : post a) : Accepts limits (pure a) [] tail post :=
  fun _ _ _ => ⟨rfl, h⟩

/-- **Two readings in a row accept two texts in a row.** -/
protected theorem bind (h : Accepts limits p text (text' ++ tail) post)
    (next : ∀ a, post a → Accepts limits (f a) text' tail post') :
    Accepts limits (p >>= f) (text ++ text') tail post' := by
  intro s hs room
  rw [List.append_assoc] at hs
  apply (h s hs room).bind
  rintro a t ⟨rfl, ha⟩
  refine (next a ha _ (ParseState.rest_past hs) room).mono ?_
  rintro b u ⟨rfl, hb⟩
  exact ⟨by rw [ParseState.past_past, List.length_append], hb⟩

/-- A reading that only looks ahead. -/
theorem look (h : Accepts limits p [] (text ++ tail) post)
    (next : ∀ a, post a → Accepts limits (f a) text tail post') :
    Accepts limits (p >>= f) text tail post' := by
  show Accepts limits (p >>= f) ([] ++ text) tail post'
  exact h.bind next

/-- A reading of one character. -/
theorem one {c : Char} (h : Accepts limits p [c] (text ++ tail) post)
    (next : ∀ a, post a → Accepts limits (f a) text tail post') :
    Accepts limits (p >>= f) (c :: text) tail post' := by
  show Accepts limits (p >>= f) ([c] ++ text) tail post'
  exact h.bind next

/-- A reading behind which nothing is left to read. -/
theorem last (h : Accepts limits p text tail post)
    (next : ∀ a, post a → Accepts limits (f a) [] tail post') :
    Accepts limits (p >>= f) text tail post' := by
  rw [← List.append_nil text]
  exact Accepts.bind h next

end Accepts

/-! ## Basic steps -/

section Steps

variable {text tail : List Char} {c : Char}

theorem cursor_accepts : Accepts limits cursor [] tail (·.rest = tail) := fun _ hs _ => ⟨rfl, hs⟩

theorem peek_accepts : Accepts limits peek [] tail (· = tail.head?) := by
  intro s hs room
  exact ⟨rfl, congrArg List.head? hs⟩

theorem errorsFull_accepts : Accepts limits errorsFull [] tail (· = false) := by
  intro s hs room
  exact ⟨rfl, decide_eq_false (Nat.not_le.2 room)⟩

theorem advance_accepts : Accepts limits (move Cursor.advance) [c] tail fun _ => True :=
  fun _ _ _ => ⟨rfl, trivial⟩

theorem advanceBy_accepts {n : Nat} (h : n = text.length) :
    Accepts limits (move (·.advanceBy n)) text tail fun _ => True := by
  intro s _ _
  exact ⟨by rw [h]; rfl, trivial⟩

theorem skipGap_accepts (gap : Gap text) (h : Stops opensBlank tail) :
    Accepts limits skipBlank text tail fun _ => True := by
  intro s hs room
  rw [ensures_skipBlank, Cursor.skipBlank, hs, gap.blankRun_append h]
  exact ⟨rfl, trivial⟩

theorem skipBlank_accepts (blank : text.all isBlank = true) (h : Stops opensBlank tail) :
    Accepts limits skipBlank text tail fun _ => True :=
  skipGap_accepts (.of_blank blank) h

theorem skipInlineBlank_accepts (blank : text.all isInlineBlank = true)
    (h : Stops isInlineBlank tail) : Accepts limits skipInlineBlank text tail fun _ => True := by
  intro s hs room
  rw [ensures_skipInlineBlank, Cursor.skipInlineBlank, Cursor.skipWhile, Cursor.run, hs,
    h.takeWhile_append blank]
  exact ⟨rfl, trivial⟩

theorem Accepts.overInlineBlank {blank : List Char} (hb : blank.all isInlineBlank = true) {next : Parse α}
    {post : α → Prop} (h : Stops isInlineBlank (text ++ tail)) (hnext : Accepts limits next text tail post) :
    Accepts limits (do skipInlineBlank; next) (blank ++ text) tail post :=
  (skipInlineBlank_accepts hb h).bind fun _ _ => hnext

theorem eatChar_accepts : Accepts limits (eatChar c) [c] tail (· = true) := by
  intro s hs room
  simp only [eatChar, accept, ensures_bind, ensures_cursor, Cursor.consume?, Cursor.peek, hs,
    List.cons_append, List.head?_cons, if_true]
  exact ⟨rfl, rfl⟩

theorem eatChar_declines (h : tail.head? ≠ some c) :
    Accepts limits (eatChar c) [] tail (· = false) := by
  intro s hs room
  simp only [eatChar, accept, ensures_bind, ensures_cursor, Cursor.consume?, Cursor.peek, hs,
    List.nil_append, if_neg h]
  exact ⟨rfl, rfl⟩

theorem eatLiteral_accepts (literal : String) :
    Accepts limits (eatLiteral literal) literal.toList tail (· = true) := by
  intro s hs room
  have check : s.cursor.checkLiteral literal = true := by
    rw [Cursor.checkLiteral, hs, List.isPrefixOf_iff_prefix]
    exact List.prefix_append _ _
  simp only [eatLiteral, accept, ensures_bind, ensures_cursor, Cursor.consumeLiteral?, if_pos check]
  exact ⟨by rw [String.length_toList]; rfl, rfl⟩

theorem branchFrom_accepts {kind : Kind} {start : Cursor} {children : List Node}
    {parts : List Outline} (h : Node.outlines children = parts) :
    Accepts limits (branchFrom kind start children) [] tail (·.outline = .branch kind parts) :=
  fun _ _ _ => ⟨rfl, h ▸ Node.outline_branch ..⟩

/-- A reading as a node that has the text read as its value. -/
theorem textNode_accepts (kind : Kind) {p : Parse (List Node)} {parts : List Outline}
    (h : Accepts limits p text tail (Node.outlines · = parts)) :
    Accepts limits (do
      let start ← cursor
      let children ← p
      textNodeFrom kind start children) text tail
      (·.outline = .node kind (some (.text (String.ofList text))) parts) := by
  intro s hs room
  simp only [ensures_bind, ensures_cursor]
  refine (h s hs room).mono ?_
  rintro children t ⟨rfl, hchildren⟩
  rw [ensures_textNodeFrom, ParseState.textSince_past hs]
  exact ⟨rfl, by rw [Node.outline_mk, hchildren]⟩

theorem takeLeaf_accepts {kind : Kind} {n : Nat} (h : n = text.length) :
    Accepts limits (takeLeaf kind n) text tail (·.outline = .leaf kind text) := by
  have read : Accepts limits (do move (·.advanceBy n); return []) text tail
      (Node.outlines · = []) :=
    (advanceBy_accepts h).last fun _ _ => .pure Node.outlines_nil
  simp only [takeLeaf, Outline.leaf]
  simpa only [bind_assoc, pure_bind] using textNode_accepts kind read

end Steps

/-! ## Combinators -/

section Combinators

variable {p : Parse (Option α)} {text text' tail : List Char} {P : α → Prop}

theorem Accepts.orReport (h : Accepts limits p text tail (Finds P)) (complaint : Complaint) :
    Accepts limits (orReport complaint p) text tail (Finds P) := by
  apply h.last
  rintro _ ⟨a, rfl, ha⟩
  exact .pure ⟨a, rfl, ha⟩

theorem Accepts.afterGap (h : Accepts limits p text tail (Finds P)) {gap : List Char} (hg : Gap gap)
    (stop : Stops opensBlank (text ++ tail)) :
    Accepts limits (afterBlank p) (gap ++ text) tail (Finds P) := by
  apply cursor_accepts.look
  intro start _
  apply (skipGap_accepts hg stop).bind
  intro _ _
  apply h.last
  rintro _ ⟨a, rfl, ha⟩
  exact .pure ⟨a, rfl, ha⟩

theorem Accepts.afterBlank (h : Accepts limits p text tail (Finds P)) (blank : List Char)
    (hb : blank.all isBlank = true) (stop : Stops opensBlank (text ++ tail)) :
    Accepts limits (afterBlank p) (blank ++ text) tail (Finds P) :=
  h.afterGap (.of_blank hb) stop

/-- Where nothing is found behind blanks, the blanks are not read either. -/
theorem Accepts.afterGap_none (h : Accepts limits p [] tail (· = none)) {gap : List Char} (hg : Gap gap)
    (stop : Stops opensBlank tail) :
    Accepts limits (Parse.afterBlank p) [] (gap ++ tail) (· = none) := by
  intro s hs room
  simp only [Parse.afterBlank, ensures_bind, ensures_cursor]
  refine (skipGap_accepts hg stop s hs room).mono ?_
  rintro _ t ⟨rfl, -⟩
  refine (h _ (ParseState.rest_past hs) room).mono ?_
  rintro _ t ⟨rfl, rfl⟩
  exact ⟨rfl, rfl⟩

theorem Accepts.afterBlank_none (h : Accepts limits p [] tail (· = none)) (blank : List Char)
    (hb : blank.all isBlank = true) (stop : Stops opensBlank tail) :
    Accepts limits (Parse.afterBlank p) [] (blank ++ tail) (· = none) :=
  h.afterGap_none (.of_blank hb) stop

theorem Accepts.someOf {q : Parse α} (h : Accepts limits q text tail P) :
    Accepts limits (return some (← q)) text tail (Finds P) := by
  apply h.last
  intro a ha
  exact .pure ⟨a, rfl, ha⟩

theorem found_accepts {q : Parse Bool} (h : Accepts limits q text tail (· = true)) :
    Accepts limits (found q) text tail (Finds fun _ => True) := by
  apply h.last
  rintro _ rfl
  exact .pure ⟨(), rfl, trivial⟩

theorem found_declines {q : Parse Bool} (h : Accepts limits q text tail (· = false)) :
    Accepts limits (found q) text tail (· = none) := by
  apply h.last
  rintro _ rfl
  exact .pure rfl

theorem isSome_accepts {q : Parse (Option α)} (h : Accepts limits q text tail (Finds P)) :
    Accepts limits (return (← q).isSome) text tail (· = true) := by
  apply h.last
  rintro _ ⟨a, rfl, -⟩
  exact .pure rfl

theorem isSome_declines {q : Parse (Option α)} (h : Accepts limits q text tail (· = none)) :
    Accepts limits (return (← q).isSome) text tail (· = false) := by
  apply h.last
  rintro _ rfl
  exact .pure rfl

theorem eatCharAfterGap_accepts {c : Char} {gap : List Char} (hg : Gap gap) (hc : opensBlank c = false) :
    Accepts limits (eatCharAfterBlank c) (gap ++ [c]) tail (· = true) :=
  isSome_accepts ((found_accepts eatChar_accepts).afterGap hg hc)

theorem eatCharAfterBlank_accepts {c : Char} (blank : List Char) (hb : blank.all isBlank = true)
    (hc : opensBlank c = false) :
    Accepts limits (eatCharAfterBlank c) (blank ++ [c]) tail (· = true) :=
  eatCharAfterGap_accepts (.of_blank hb) hc

theorem eatCharAfterGap_declines {c : Char} {gap : List Char} (hg : Gap gap) (stop : Stops opensBlank tail)
    (h : tail.head? ≠ some c) : Accepts limits (eatCharAfterBlank c) [] (gap ++ tail) (· = false) :=
  isSome_declines ((found_declines (eatChar_declines h)).afterGap_none hg stop)

theorem eatCharAfterBlank_declines {c : Char} (blank : List Char) (hb : blank.all isBlank = true)
    (stop : Stops opensBlank tail) (h : tail.head? ≠ some c) :
    Accepts limits (eatCharAfterBlank c) [] (blank ++ tail) (· = false) :=
  eatCharAfterGap_declines (.of_blank hb) stop h

/-- Reading without complaint leaves nothing to recover from. -/
theorem Accepts.counting {q : Parse α} {recover : Parse Unit} {next : α → Parse β}
    {post : β → Prop} (h : Accepts limits q text (text' ++ tail) P)
    (hnext : ∀ a, P a → Accepts limits (next a) text' tail post) :
    Accepts limits (do
      let before ← errorCount
      let a ← q
      if before < (← errorCount) then
        recover
      next a) (text ++ text') tail post := by
  intro s hs room
  have front := hs
  rw [List.append_assoc] at front
  simp only [ensures_bind, ensures_errorCount]
  refine (h s front room).mono ?_
  rintro a t ⟨rfl, ha⟩
  have same : ¬ s.errors.length < (s.past text.length).errors.length := Nat.lt_irrefl _
  rw [if_neg same]
  refine (hnext a ha _ (ParseState.rest_past front) room).mono ?_
  rintro b u ⟨rfl, hb⟩
  exact ⟨by rw [ParseState.past_past, List.length_append], hb⟩

/-! ### Repetition -/

/-- Repeating `step` accepts `text`, if it may be repeated often enough. -/
def AcceptsMany (limits : Limits) (step : Parse (Option α)) (text tail : List Char)
    (post : List α → Prop) : Prop :=
  ∀ fuel, text.length < fuel → Accepts limits (manyFuel step fuel) text tail post

theorem AcceptsMany.stop {post : List α → Prop} (h : Accepts limits p text tail (· = none))
    (nothing : post []) : AcceptsMany limits p text tail post := by
  intro fuel enough
  cases fuel with
  | zero => omega
  | succ fuel =>
    apply h.last
    rintro _ rfl
    exact .pure nothing

theorem Accepts.cons {post post' : List α → Prop}
    (h : Accepts limits p text (text' ++ tail) (Finds P)) (read : text ≠ [])
    (further : AcceptsMany limits p text' tail post)
    (join : ∀ a as, P a → post as → post' (a :: as)) :
    AcceptsMany limits p (text ++ text') tail post' := by
  intro fuel enough
  cases fuel with
  | zero => omega
  | succ fuel =>
    apply h.bind
    rintro _ ⟨a, rfl, ha⟩
    have := List.length_pos_iff.2 read
    rw [List.length_append] at enough
    apply (further fuel (by omega)).last
    intro as has
    exact .pure (join a as ha has)

theorem AcceptsMany.many {post : List α → Prop} (h : AcceptsMany limits p text tail post) :
    Accepts limits (many p) text tail post := by
  apply cursor_accepts.look
  intro c hc
  refine h _ ?_
  rw [hc, List.length_append]
  omega

/-- Each thing of a list, rendered behind a comma and a space, is accepted as the next item. -/
theorem commaList_accepts {γ δ : Type} {write : γ → List Char} {view : α → δ} {means : γ → δ}
    (ends : List Char → Prop) (xs : Abstract.Series γ)
    (item : ∀ x blank tail, blank.all isBlank = true → ends tail →
      Accepts limits p (blank ++ write x) tail (Finds (view · = means x)))
    (comma : ∀ rest, ends (',' :: rest)) (hends : ends tail)
    (stop : Accepts limits (eatCharAfterBlank ',') [] tail (· = false)) :
    Accepts limits (commaList p) (xs.render write) tail
      (fun rs => rs.map view = xs.toList.map means) := by
  obtain ⟨first, further⟩ := xs
  have ends_of (xs : List γ) : ends ((xs.flatMap fun x => ',' :: ' ' :: write x) ++ tail) := by
    cases xs with
    | nil => exact hends
    | cons x xs => exact comma _
  have rest (xs : List γ) : AcceptsMany limits
      (do if ← eatCharAfterBlank ',' then p else return none)
      (xs.flatMap fun x => ',' :: ' ' :: write x) tail (fun rs => rs.map view = xs.map means) := by
    induction xs with
    | nil =>
      refine .stop ?_ rfl
      apply stop.last
      rintro _ rfl
      exact .pure rfl
    | cons x xs ih =>
      have next : Accepts limits (do if ← eatCharAfterBlank ',' then p else return none)
          (',' :: ' ' :: write x) ((xs.flatMap fun x => ',' :: ' ' :: write x) ++ tail)
          (Finds (view · = means x)) := by
        apply (eatCharAfterBlank_accepts [] rfl rfl).one
        rintro _ rfl
        exact item x [' '] _ rfl (ends_of xs)
      refine next.cons (by simp) ih ?_
      intro r rs hr hrs
      rw [List.map_cons, List.map_cons, hr, hrs]
  apply (item first [] _ rfl (ends_of further)).bind
  rintro _ ⟨r, rfl, hr⟩
  apply (rest further).many.last
  intro rs hrs
  refine .pure ?_
  rw [List.map_cons, hr, hrs]
  rfl

end Combinators

end Parse

/-! ## Words -/

/-- A word in front of `tail` ends there and is not the name of a rule. -/
structure EndsWord (tail : List Char) : Prop where
  stops : Stops isWordChar tail
  noAssignment : startsAssignment (tail.dropWhile isInlineBlank) = false

theorem isWordChar_of_isIdentStart {c : Char} (h : isIdentStart c = true) : isWordChar c = true := by
  rw [isIdentStart, Bool.or_eq_true] at h
  rcases h with h | h
  · simp [isWordChar, Char.isAlphanum, h]
  · simp [isWordChar, h]

theorem opensBlank_of_isWordChar {c : Char} (h : isWordChar c = true) : opensBlank c = false :=
  opensBlank_of_kind rfl h

theorem opensBlank_of_isIdentStart {c : Char} (h : isIdentStart c = true) : opensBlank c = false :=
  opensBlank_of_isWordChar (isWordChar_of_isIdentStart h)

theorem stops_of_word {word : List Char} (h : word.all isWordChar = true) (ne : word ≠ [])
    (tail : List Char) : Stops opensBlank (word ++ tail) := by
  cases word with
  | nil => exact absurd rfl ne
  | cons c word =>
    rw [List.all_cons, Bool.and_eq_true] at h
    exact opensBlank_of_isWordChar h.1

theorem isInlineBlank_of_opensBlank {c : Char} (h : opensBlank c = false) :
    isInlineBlank c = false := by
  simp only [opensBlank, isBlank, Bool.or_eq_false_iff] at h
  exact h.1.1.1

theorem startsAssignment_of_ne {c : Char} (h : c ≠ '=') (rest : List Char) :
    startsAssignment (c :: rest) = false := by
  unfold startsAssignment
  split
  · next e => exact absurd (List.cons.inj e).1 h
  · next e => exact absurd (List.cons.inj e).1 h
  · rfl

theorem startsAssignment_behindGap {gap : List Char} (h : Gap gap) {c : Char} (stop : opensBlank c = false)
    (equals : c ≠ '=') (rest : List Char) :
    startsAssignment ((gap ++ c :: rest).dropWhile isInlineBlank) = false := by
  induction h with
  | nothing =>
    rw [List.nil_append, List.dropWhile_cons_of_neg (by simp [isInlineBlank_of_opensBlank stop])]
    exact startsAssignment_of_ne equals rest
  | @blank b gap hb _ ih =>
    rw [List.cons_append]
    by_cases inline : isInlineBlank b = true
    · rwa [List.dropWhile_cons_of_pos inline]
    · rw [List.dropWhile_cons_of_neg inline]
      exact startsAssignment_of_ne (ne_of_kind hb rfl) _
  | comment _ _ _ => rfl

/-- A word ends where a gap follows, or what is no character of words. -/
theorem EndsWord.behindGap {gap : List Char} (h : Gap gap) {c : Char} (stop : opensBlank c = false)
    (equals : c ≠ '=') (word : gap = [] → isWordChar c = false) (rest : List Char) :
    EndsWord (gap ++ c :: rest) :=
  ⟨.behindGap rfl h word, startsAssignment_behindGap h stop equals rest⟩

theorem endsWord_space {c : Char} (blank : isInlineBlank c = false) (equals : c ≠ '=')
    (rest : List Char) : EndsWord (' ' :: c :: rest) := by
  refine ⟨Stops.cons_iff.2 rfl, ?_⟩
  rw [List.dropWhile_cons_of_pos rfl, List.dropWhile_cons_of_neg (by simp [blank])]
  exact startsAssignment_of_ne equals rest

/-- A word ends where a space and another word follow. -/
theorem endsWord_word {word : List Char} (h : word.all isWordChar = true) (ne : word ≠ [])
    (tail : List Char) : EndsWord (' ' :: (word ++ tail)) := by
  cases word with
  | nil => exact absurd rfl ne
  | cons c word =>
    rw [List.all_cons, Bool.and_eq_true] at h
    exact endsWord_space (isInlineBlank_of_opensBlank (opensBlank_of_isWordChar h.1))
      (ne_of_kind h.1 rfl) _

theorem startsRule_append {word tail : List Char} (h : word.all isWordChar = true)
    (ends : EndsWord tail) : startsRule (word ++ tail) = false := by
  rw [startsRule, ends.stops.dropWhile_append h, ends.noAssignment, Bool.and_false]

theorem head_of_startsRule {text : List Char} (h : startsRule text = true) :
    ∃ c rest, text = c :: rest ∧ isIdentStart c = true := by
  cases text with
  | nil => cases h
  | cons c rest =>
    rw [startsRule, Bool.and_eq_true] at h
    exact ⟨c, rest, rfl, h.1⟩

theorem startsRule_of_stops {tail : List Char} (h : Stops isIdentStart tail) :
    startsRule tail = false := by
  rw [startsRule, h, Bool.false_and]

theorem Cursor.checkWord_iff {c : Cursor} {word : String}
    (h : word.toList.all isWordChar = true) :
    c.checkWord word = true ↔ c.rest.takeWhile isWordChar = word.toList := by
  rw [checkWord, Bool.and_eq_true, checkLiteral, List.isPrefixOf_iff_prefix, Bool.not_eq_true',
    peekAt, ← String.length_toList]
  constructor
  · rintro ⟨⟨tail, htail⟩, hnext⟩
    rw [← htail, List.getElem?_append_right (Nat.le_refl _), Nat.sub_self,
      ← List.head?_eq_getElem?] at hnext
    rw [← htail, Stops.takeWhile_append hnext h]
  · intro run
    have split := List.takeWhile_append_dropWhile (p := isWordChar) (l := c.rest)
    rw [run] at split
    refine ⟨⟨_, split⟩, ?_⟩
    rw [← split, List.getElem?_append_right (Nat.le_refl _), Nat.sub_self,
      ← List.head?_eq_getElem?]
    have := List.head?_dropWhile_not isWordChar c.rest
    cases hd : (c.rest.dropWhile isWordChar).head? with
    | none => rfl
    | some x => simpa [hd] using this

theorem Cursor.atKeyword_of_word {c : Cursor} {word : String} {tail : List Char}
    (h : c.rest = word.toList ++ tail) (all : word.toList.all isWordChar = true)
    (ends : EndsWord tail) : c.atKeyword word = true := by
  have check : c.checkWord word = true := by
    rw [checkWord_iff all, h, ends.stops.takeWhile_append all]
  rw [atKeyword, check, atRuleStart, h, startsRule_append all ends]
  rfl

theorem Cursor.not_atKeyword {c : Cursor} {word : String} (all : word.toList.all isWordChar = true)
    (h : startsRule c.rest = true ∨ c.rest.takeWhile isWordChar ≠ word.toList) :
    c.atKeyword word = false := by
  rw [atKeyword, atRuleStart]
  rcases h with h | h
  · rw [h, Bool.not_true, Bool.and_false]
  · have check : c.checkWord word = false := by
      rw [← Bool.not_eq_true, checkWord_iff all]
      exact h
    rw [check, Bool.false_and]

theorem Cursor.checkLiteral_eq_false {c : Cursor} {literal : String} (i : Nat) (x : Char)
    (hx : literal.toList[i]? = some x) (h : c.rest[i]? ≠ some x) : c.checkLiteral literal = false := by
  rw [checkLiteral, ← Bool.not_eq_true, List.isPrefixOf_iff_prefix]
  rintro ⟨tail, htail⟩
  rw [← htail, List.getElem?_append_left (List.getElem?_eq_some_iff.1 hx).1] at h
  exact h hx

namespace Abstract.Identifier

theorem all_word (i : Identifier) : i.render.all isWordChar = true := by
  rw [render, List.all_cons, isWordChar_of_isIdentStart i.first_start, i.further_word, Bool.and_self]

theorem startsRule (i : Identifier) (rest : List Char) (single : rest.head? ≠ some '=') :
    PatternRules.startsRule (i.render ++ ' ' :: '=' :: rest) = true := by
  rw [PatternRules.startsRule, Stops.dropWhile_append (Stops.cons_iff.2 rfl) i.all_word]
  have first : (i.render ++ ' ' :: '=' :: rest).head?.any isIdentStart = true := i.first_start
  rw [first, Bool.true_and]
  show startsAssignment ('=' :: rest) = true
  unfold startsAssignment
  split
  · next h =>
    cases h
    exact absurd rfl single
  · rfl
  · next _ h => exact absurd rfl (h rest)

end Abstract.Identifier

/-! ## Leaves -/

namespace Parse

open Abstract

variable {α : Type} {limits : Limits} {text tail : List Char}

theorem eatWord_accepts {word : String} (h : word.toList.all isWordChar = true)
    (stop : Stops isWordChar tail) :
    Accepts limits (eatWord word) word.toList tail (· = true) := by
  intro s hs room
  have check : s.cursor.checkWord word = true := by
    rw [Cursor.checkWord_iff h, hs, stop.takeWhile_append h]
  have literal : s.cursor.checkLiteral word = true := (Bool.and_eq_true _ _ ▸ check).1
  simp only [eatWord, accept, ensures_bind, ensures_cursor, Cursor.consumeWord?,
    Cursor.consumeLiteral?, check, literal, if_true]
  exact ⟨by rw [String.length_toList]; rfl, rfl⟩

theorem eatWord_declines {word : String} (h : word.toList.all isWordChar = true)
    (other : tail.takeWhile isWordChar ≠ word.toList) :
    Accepts limits (eatWord word) [] tail (· = false) := by
  intro s hs room
  have check : ¬ s.cursor.checkWord word = true := by
    rwa [Cursor.checkWord_iff h, hs]
  simp only [eatWord, accept, ensures_bind, ensures_cursor, Cursor.consumeWord?, if_neg check]
  exact ⟨rfl, rfl⟩

theorem eatWordAfterBlank_accepts {word : String} (blank : List Char)
    (hb : blank.all isBlank = true) (h : word.toList.all isWordChar = true) (ne : word.toList ≠ [])
    (stop : Stops isWordChar tail) :
    Accepts limits (eatWordAfterBlank word) (blank ++ word.toList) tail (· = true) :=
  isSome_accepts ((found_accepts (eatWord_accepts h stop)).afterBlank blank hb (stops_of_word h ne tail))

theorem eatWordAfterBlank_declines {word : String} (blank : List Char)
    (hb : blank.all isBlank = true) (h : word.toList.all isWordChar = true)
    (stop : Stops opensBlank tail) (other : tail.takeWhile isWordChar ≠ word.toList) :
    Accepts limits (eatWordAfterBlank word) [] (blank ++ tail) (· = false) :=
  isSome_declines ((found_declines (eatWord_declines h other)).afterBlank_none blank hb stop)

theorem identifier_accepts (i : Identifier) (stop : Stops isWordChar tail) :
    Accepts limits identifier i.render tail (Finds (·.outline = i.outline)) := by
  apply cursor_accepts.look
  intro c hc
  have peek : c.peek.any isIdentStart = true := by
    rw [Cursor.peek, hc]
    exact i.first_start
  rw [if_pos peek, Cursor.run, hc, stop.takeWhile_append i.all_word]
  exact (takeLeaf_accepts rfl).someOf

theorem identifier_declines (stop : Stops isIdentStart tail) :
    Accepts limits identifier [] tail (· = none) := by
  apply cursor_accepts.look
  intro c hc
  have peek : c.peek.any isIdentStart = false := by
    rw [Cursor.peek, hc]
    exact stop
  rw [peek]
  exact .pure rfl

theorem stringTail_append (parts : List StringPart) (tail : List Char) :
    stringTail (parts.flatMap StringPart.render ++ '"' :: tail) =
      ((parts.flatMap StringPart.render).length + 1, true) := by
  induction parts with
  | nil => rfl
  | cons part parts ih =>
    cases part with
    | plain c =>
      obtain ⟨c, quote, backslash, newline, carriageReturn⟩ := c
      simp [StringPart.render, stringTail, quote, backslash, newline, carriageReturn, ih]
    | escaped c =>
      obtain ⟨c, newline, _⟩ := c
      simp [StringPart.render, Escaped.render, stringTail, newline, ih]

theorem string_accepts (l : StringLiteral) :
    Accepts limits string l.render tail (Finds (·.outline = l.outline)) := by
  intro s hs room
  have peek : s.cursor.peek = some '"' := congrArg List.head? hs
  have read : stringTail s.cursor.rest.tail =
      ((l.parts.flatMap StringPart.render).length + 1, true) := by
    rw [hs, StringLiteral.render, List.cons_append, List.tail_cons, List.append_assoc]
    exact stringTail_append l.parts tail
  have length : (l.parts.flatMap StringPart.render).length + 1 + 1 = l.render.length := by
    simp [StringLiteral.render]
  simp only [string, ensures_bind, ensures_cursor, if_pos peek, read, ensures_move,
    Bool.not_true, Bool.false_eq_true, if_false, ensures_textNodeFrom, ensures_pure, length]
  refine ⟨rfl, _, rfl, ?_⟩
  have text : (s.cursor.advanceBy l.render.length).textSince s.cursor = l.render :=
    ParseState.textSince_past hs
  rw [text]
  exact Node.outline_leaf ..

theorem number_accepts {n : Number} (h : n.Written text) (stop : Stops Char.isDigit tail) :
    Accepts limits number text tail (Finds (·.outline = n.outline)) := by
  have nonempty : text.isEmpty = false := List.isEmpty_eq_false_iff.2 h.nonempty
  intro s hs room
  have run : s.cursor.run Char.isDigit = text := by
    rw [Cursor.run, hs, stop.takeWhile_append h.digits]
  simp only [number, ensures_bind, ensures_cursor, run, nonempty, Bool.false_eq_true, if_false,
    ensures_move, ensures_spanFrom, h.value, if_pos n.2, ensures_pure]
  exact ⟨rfl, _, rfl, Node.outline_number ..⟩

theorem number_declines (stop : Stops Char.isDigit tail) :
    Accepts limits number [] tail (· = none) := by
  apply cursor_accepts.look
  intro c hc
  have run : c.run Char.isDigit = [] := by
    rw [Cursor.run, hc]
    exact stop.takeWhile_eq
  rw [run]
  exact .pure rfl

end Parse

end PatternRules

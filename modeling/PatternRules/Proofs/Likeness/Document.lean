import PatternRules.Proofs.Likeness.Statement

/-!
Documents of texts that read alike. Between statements both readings are at corresponding places, or both at the
end (`Likeness.Level`). What stops the reading is that there is no more room for complaints, so the readings are
compared under the limit `cap` of the document while the complaints are all seen by a reading without a limit
(`Quiet`): behind a complaint that tells nothing has to be shown.

* `Rounds.agree`: imports, and then rules, read one by one until there is no more room;
* `statements_agrees`: the sections of a document, one after the other;
* `Likeness.same_reading`: texts that read alike have the same errors and, but for their texts, the same trees.
-/

namespace PatternRules

/-! ## Between statements -/

/-- Where statements start and end: at corresponding places, or at the ends of both texts. -/
inductive Likeness.Level (L : Likeness) (c c' : Cursor) : Prop
  | inside (placed : L.place c c') (last : c.rest = [] → c'.rest = [])
  | finished (h : L.finished c c')

namespace Likeness.Level

variable {L : Likeness} {c c' : Cursor}

theorem atEnd_eq (h : L.Level c c') : c'.atEnd = c.atEnd := by
  cases h with
  | inside placed last => exact Parse.atEnd_eq placed last
  | finished h =>
    obtain ⟨atEnd, atEnd'⟩ := L.atEnd h
    rw [Cursor.atEnd, Cursor.atEnd, atEnd, atEnd']

theorem atRuleStart_eq (h : L.Level c c') : c'.atRuleStart = c.atRuleStart := by
  cases h with
  | inside placed last => exact L.atRuleStart_eq placed
  | finished h =>
    obtain ⟨atEnd, atEnd'⟩ := L.atEnd h
    rw [Cursor.atRuleStart, Cursor.atRuleStart, atEnd, atEnd']

theorem atKeyword_eq (h : L.Level c c') {word : String} (all : word.toList.all isWordChar = true)
    (ne : word.toList ≠ []) : c'.atKeyword word = c.atKeyword word := by
  cases h with
  | inside placed last => exact L.atKeyword_eq placed all
  | finished h =>
    obtain ⟨atEnd, atEnd'⟩ := L.atEnd h
    rw [Cursor.atKeyword, Cursor.atKeyword, Parse.checkWord_atEnd all ne atEnd,
      Parse.checkWord_atEnd all ne atEnd', Bool.false_and, Bool.false_and]

/-- Unless both texts have ended, the places correspond. -/
theorem placed (h : L.Level c c') (left : c.rest ≠ []) : L.place c c' := by
  cases h with
  | inside placed last => exact placed
  | finished h => exact absurd (L.atEnd h).1 left

theorem length_le (h : L.Level c c') : c.rest.length ≤ c'.rest.length := by
  cases h with
  | inside placed last => exact L.length_le placed
  | finished h => rw [(L.atEnd h).1]; exact Nat.zero_le _

theorem spanFrom_eq {a a' : Cursor} (h : L.Level c c') (begins : L.place a a') :
    c'.spanFrom a'.mark = c.spanFrom a.mark := by
  cases h with
  | inside placed last => exact L.spanFrom begins placed
  | finished h => exact L.finished_spanFrom begins h

/-- Behind blanks. -/
theorem behindBlank (h : L.place c c' ∨ L.finished c c') : L.Level c.skipBlank c'.skipBlank := by
  rcases h with placed | finished
  · rcases L.skipBlank placed with ⟨placed, last⟩ | finished
    · exact .inside placed last
    · exact .finished finished
  · have stays {d : Cursor} (atEnd : d.rest = []) : d.skipBlank = d := by
      rw [Cursor.skipBlank, atEnd]
      rfl
    rw [stays (L.atEnd finished).1, stays (L.atEnd finished).2]
    exact .finished finished

/-- Both readings find the same rule, or none. By induction on the fuel of the first one, which lasts. -/
theorem seekRule {n m : Nat} (h : L.place c c' ∨ L.finished c c') (enough : c.rest.length < n)
    (more : n ≤ m) : L.Level (c.seekRule n) (c'.seekRule m) := by
  induction n generalizing c c' m with
  | zero => omega
  | succ n ih =>
    obtain ⟨m, rfl⟩ : ∃ k, m = k + 1 := ⟨m - 1, by omega⟩
    have level := behindBlank h
    unfold Cursor.seekRule
    dsimp only
    rw [level.atEnd_eq, level.atRuleStart_eq]
    split
    · exact level
    · next goesOn =>
      have shorter := Cursor.length_round_lt goesOn
      exact ih (L.skipLine (level.placed (Cursor.rest_ne_nil_of_goesOn goesOn))) (by omega) (by omega)

theorem synchronize (h : L.place c c') : L.Level c.synchronize c'.synchronize := by
  have behind := L.skipLine h
  have shorter : c.skipLine.rest.length ≤ c'.skipLine.rest.length := by
    rcases behind with placed | finished
    · exact L.length_le placed
    · rw [(L.atEnd finished).1]
      exact Nat.zero_le _
  exact seekRule behind (Nat.lt_succ_self _) (Nat.succ_le_succ shorter)

theorem either (h : L.Level c c') : L.place c c' ∨ L.finished c c' := by
  cases h with
  | inside placed last => exact .inl placed
  | finished h => exact .inr h

end Likeness.Level

/-! ## Behind a complaint that tells -/

/-- The state behind, where there is room for all complaints. -/
def Outcome.whole {α : Type} (o : Outcome α) (errors : List SyntaxError) : ParseState :=
  ⟨o.cursor, errors ++ o.complaints, o.nested⟩

/-- The state in which no more than `cap` errors are recorded. -/
def ParseState.upTo (cap : Nat) (s : ParseState) : ParseState := { s with errors := s.errors.take cap }

namespace Parse

variable {α β : Type} {L : Likeness} {depth cap : Nat} {s t : ParseState}

theorem Outcome.state_take (o : Outcome α) (cap : Nat) (errors : List SyntaxError) :
    o.state cap (errors.take cap) = (o.whole errors).upTo cap := by
  have room : cap - min cap errors.length = cap - errors.length := by omega
  rw [Outcome.state, Outcome.whole, ParseState.upTo, List.length_take, room, List.take_append]

theorem Outcome.state_of_room (o : Outcome α) {cap : Nat} {errors : List SyntaxError}
    (room : errors.length + o.complaints.length ≤ cap) : o.state cap errors = o.whole errors := by
  rw [Outcome.state, Outcome.whole, List.take_of_length_le (by omega)]

theorem ParseState.upTo_of_room {s : ParseState} {cap : Nat} (room : s.errors.length ≤ cap) :
    s.upTo cap = s := by
  rw [ParseState.upTo, List.take_of_length_le room]

/-- Where there is room for all complaints, none of them tells. -/
def Quiet (L : Likeness) (depth : Nat) (p : Parse α) (s : ParseState) : Prop :=
  ∃ cap, s.errors.length < cap ∧ Ensures ⟨depth, cap⟩ s p fun _ t =>
    t.errors.length < cap ∧ ∀ e ∈ t.errors, ¬ L.tells e

/-- From `s`, `p` comes to `o`, as long as there is room for one error at least. -/
def ComesToWithRoom (depth : Nat) (s : ParseState) (p : Parse α) (o : Outcome α) : Prop :=
  ∀ cap, s.errors.length < cap →
    Ensures ⟨depth, cap⟩ s p fun a t => a = o.result ∧ t = o.state cap s.errors

theorem ComesTo.withRoom {p : Parse α} {o : Outcome α}
    (h : ComesTo depth s.cursor s.nestingReported p o) : ComesToWithRoom depth s p o :=
  fun cap _ => h cap s.errors

/-- What comes next is quiet as well, and no complaint so far tells. -/
theorem Quiet.next {p : Parse α} {f : α → Parse β} {o : Outcome α} (quiet : Quiet L depth (p >>= f) s)
    (h : ComesToWithRoom depth s p o) (grows : ∀ a, Grows (f a)) :
    Quiet L depth (f o.result) (o.whole s.errors) ∧ ∀ e ∈ o.complaints, ¬ L.tells e := by
  obtain ⟨cap, room, all⟩ := quiet
  rw [ensures_bind] at all
  obtain ⟨⟨result, state⟩, further⟩ := (h cap room).and all
  rw [result, state] at further
  obtain ⟨⟨fits, quiet⟩, more⟩ := further.and (grows o.result _ _)
  -- Errors are only added, so there was room for all complaints.
  have added := more.front.length_le
  have count : (o.state cap s.errors).errors.length =
      s.errors.length + min (cap - s.errors.length) o.complaints.length := by
    rw [Outcome.state, List.length_append, List.length_take]
  have whole : o.state cap s.errors = o.whole s.errors := Outcome.state_of_room o (by omega)
  rw [whole] at further more
  refine ⟨⟨cap, ?_, further⟩, fun e he => quiet e ?_⟩
  · rw [Outcome.whole, List.length_append]
    omega
  · rw [whole]
    exact more.front.subset (List.mem_append_right _ he)

/-! ## Statements in step -/

/-- The readings are at the same statement. All complaints of the first one so far are in `s`; no more than
`cap` of them are recorded. -/
structure Abreast (L : Likeness) (cap : Nat) (s t : ParseState) : Prop where
  level : L.Level s.cursor t.cursor
  errors : t.errors = s.errors.take cap
  nested : t.nestingReported = s.nestingReported

/-- What two readings of a statement come to. -/
structure EndsAbreast [HasTexts α] (L : Likeness) (o o' : Outcome α) : Prop where
  result : o.result = mapTexts L.view o'.result
  level : L.Level o.cursor o'.cursor
  nested : o'.nested = o.nested
  complaints : o'.complaints = o.complaints

theorem EndsAbreast.abreast [HasTexts α] {o o' : Outcome α} (h : EndsAbreast L o o') (cap : Nat)
    (errors : List SyntaxError) : Abreast L cap (o.whole errors) ((o'.whole errors).upTo cap) :=
  ⟨h.level, by rw [ParseState.upTo, Outcome.whole, Outcome.whole, h.complaints], h.nested⟩

/-- Behind a statement: blanks, and before them what is skipped if something was lost. -/
def Outcome.left (o : Outcome α) (skip : Cursor → Cursor) (lost : Prop) [Decidable lost] (b : β) : Outcome β :=
  ⟨b, (if lost then skip o.cursor else o.cursor).skipBlank, o.nested, o.complaints⟩

theorem EndsAbreast.left [HasTexts α] [HasTexts β] {o o' : Outcome α} (h : L.Matches o o')
    {skip : Cursor → Cursor} (skips : ∀ {c c'}, L.place c c' → L.place (skip c) (skip c') ∨
      L.finished (skip c) (skip c')) (lost : Prop) [Decidable lost] (b : β) :
    EndsAbreast L (Outcome.left o skip lost (mapTexts L.view b)) (Outcome.left o' skip lost b) := by
  refine ⟨rfl, ?_, h.nested, h.complaints⟩
  by_cases yes : lost
  · simpa only [Outcome.left, if_pos yes] using Likeness.Level.behindBlank (skips h.place)
  · simpa only [Outcome.left, if_neg yes] using Likeness.Level.behindBlank (.inl h.place)

/-- Whether a statement adds errors is known as long as there is room. -/
theorem leaving_withRoom {o : Outcome α} {errors : List SyntaxError} (room : errors.length < cap)
    (skip : Cursor → Cursor) (b : β) {lost : Nat → Prop} [DecidablePred lost] {missing : Prop}
    [Decidable missing]
    (lostIf : ∀ after, errors.length ≤ after → (lost after ↔ missing ∨ errors.length < after)) :
    Ensures ⟨depth, cap⟩ (o.state cap errors)
      (do
        if lost (← errorCount) then
          move skip
        skipBlank
        return b)
      fun a t => a = b ∧ t = (Outcome.left o skip (missing ∨ o.complaints ≠ []) b).state cap errors := by
  have count : (o.state cap errors).errors.length =
      errors.length + min (cap - errors.length) o.complaints.length := by
    rw [Outcome.state, List.length_append, List.length_take]
  have added : errors.length < (o.state cap errors).errors.length ↔ o.complaints ≠ [] := by
    rw [count, ← List.length_pos_iff]
    omega
  have same := lostIf (o.state cap errors).errors.length (by omega)
  rw [added] at same
  simp only [ensures_bind, ensures_errorCount, same, Outcome.left]
  split
  · exact ⟨rfl, rfl⟩
  · exact ⟨rfl, rfl⟩

/-- Both readings, as long as there is room: they end abreast, or the first one has a complaint that tells. -/
def AgreeWithRoom [HasTexts α] (L : Likeness) (depth : Nat) (s : ParseState) (c' : Cursor)
    (p : Parse α) : Prop :=
  ∃ o, ComesToWithRoom depth s p o ∧ ((∃ e ∈ o.complaints, L.tells e) ∨
    ∃ o', ComesToWithRoom depth { s with cursor := c' } p o' ∧ EndsAbreast L o o')

/-- A statement, and what is skipped behind it if it adds errors. -/
def leaving (skip : Cursor → Cursor) (p : Parse α) (b : α → β) : Parse β := do
  let before ← errorCount
  let a ← p
  if before < (← errorCount) then
    move skip
  skipBlank
  return b a

theorem ComesTo.leaving {p : Parse α} {o : Outcome α}
    (comes : ComesTo depth s.cursor s.nestingReported p o) (skip : Cursor → Cursor) (b : α → β) :
    ComesToWithRoom depth s (leaving skip p b)
      (Outcome.left o skip (False ∨ o.complaints ≠ []) (b o.result)) := by
  intro cap room
  rw [Parse.leaving, ensures_bind, ensures_errorCount]
  refine (comes cap s.errors).bind ?_
  rintro _ _ ⟨rfl, rfl⟩
  exact leaving_withRoom room skip (b o.result) fun after _ => by rw [false_or]

/-- Where no more errors are recorded, none is added. -/
theorem ComesTo.leaving_full {p : Parse α} {o : Outcome α}
    (comes : ComesTo depth s.cursor s.nestingReported p o) (full : cap ≤ s.errors.length)
    (skip : Cursor → Cursor) (b : α → β) :
    Ensures ⟨depth, cap⟩ s (Parse.leaving skip p b) fun a t =>
      a = b o.result ∧ t = (Outcome.left o skip False (b o.result)).state cap s.errors := by
  rw [Parse.leaving, ensures_bind, ensures_errorCount]
  refine (comes cap s.errors).bind ?_
  rintro _ _ ⟨rfl, rfl⟩
  have same : (o.state cap s.errors).errors = s.errors := by
    rw [Outcome.state, Nat.sub_eq_zero_of_le full, List.take_zero, List.append_nil]
  simp only [ensures_bind, ensures_errorCount, same, Nat.lt_irrefl, if_false]
  exact ⟨rfl, rfl⟩

theorem leaving_agrees_withRoom [HasTexts α] [HasTexts β] {p : Parse α} {c' : Cursor}
    (h : L.AgreeAt depth s.nestingReported s.cursor c' p p) {skip : Cursor → Cursor}
    (skips : ∀ {c c'}, L.place c c' → L.place (skip c) (skip c') ∨ L.finished (skip c) (skip c'))
    {b : α → β} (seen : ∀ a, b (mapTexts L.view a) = mapTexts L.view (b a)) :
    AgreeWithRoom L depth s c' (leaving skip p b) := by
  obtain ⟨o, comes, tells | ⟨o', comes', matched⟩⟩ := h
  · exact ⟨_, comes.leaving skip b, .inl tells.complaint⟩
  · refine ⟨_, comes.leaving skip b, .inr
      ⟨_, ComesTo.leaving (s := { s with cursor := c' }) comes' skip b, ?_⟩⟩
    rw [matched.result, seen, matched.complaints]
    exact .left matched skips _ (b o'.result)

/-! ## Rounds -/

/-- Rounds that are read as long as something comes next and errors are recorded. -/
def rounds (next : Cursor → Bool) (round : Parse (Option α)) : Parse (Option α) := do
  if next (← cursor) then
    if ← errorsFull then return none else round
  else
    return none

/-- What is so of rounds that are read alike. -/
structure Rounds [HasTexts α] (L : Likeness) (next : Cursor → Bool) (round : Parse (Option α)) : Prop where
  next_eq : ∀ {c c'}, L.Level c c' → next c' = next c
  next_atEnd : ∀ {c}, c.rest = [] → next c = false
  agrees : ∀ {s : ParseState} {c'} (depth : Nat), L.Level s.cursor c' → next s.cursor = true →
    AgreeWithRoom L depth s c' round
  consumes : Consumes (rounds next round)
  grows : Grows (rounds next round)

theorem rounds_declines {next : Cursor → Bool} {round : Parse (Option α)}
    (h : next s.cursor = false ∨ cap ≤ s.errors.length) : Declines ⟨depth, cap⟩ s (rounds next round) := by
  simp only [Declines, rounds, ensures_bind, ensures_cursor]
  split
  · next here =>
    have full : cap ≤ s.errors.length := h.resolve_left fun not => by rw [here] at not; cases not
    simp only [ensures_bind, ensures_errorsFull, decide_eq_true full, if_true]
    exact ⟨rfl, rfl⟩
  · exact ⟨rfl, rfl⟩

/-- With room, a round is read if something comes next. -/
theorem rounds_of_room {next : Cursor → Bool} {round : Parse (Option α)} (here : next s.cursor = true)
    (room : s.errors.length < cap) (post : Option α → ParseState → Prop) :
    Ensures ⟨depth, cap⟩ s (rounds next round) post ↔ Ensures ⟨depth, cap⟩ s round post := by
  have notFull : decide (cap ≤ s.errors.length) = false := decide_eq_false (by omega)
  simp only [rounds, ensures_bind, ensures_cursor, here, if_true, ensures_errorsFull, notFull,
    Bool.false_eq_true, if_false]

/-- Where the first reading of rounds has stopped: nothing more comes next, or no more errors are recorded. -/
def Stopped (L : Likeness) (depth cap : Nat) (next : Cursor → Bool) (p : Parse β) (s : ParseState) : Prop :=
  Quiet L depth p s ∨ cap ≤ s.errors.length ∧ next s.cursor = true

/-- Where nothing is found, what comes next is quiet. -/
theorem Quiet.skip {p : Parse α} {f : α → Parse β} {a : α} (quiet : Quiet L depth (p >>= f) s)
    (h : ∀ cap, Ensures ⟨depth, cap⟩ s p fun r t => r = a ∧ t = s) : Quiet L depth (f a) s := by
  obtain ⟨cap, room, all⟩ := quiet
  rw [ensures_bind] at all
  obtain ⟨⟨result, state⟩, further⟩ := (h cap).and all
  rw [result, state] at further
  exact ⟨cap, room, further⟩

theorem Abreast.full (h : Abreast L cap s t) (full : cap ≤ s.errors.length) :
    cap ≤ (s.upTo cap).errors.length ∧ cap ≤ t.errors.length := by
  rw [h.errors, ParseState.upTo, List.length_take]
  exact ⟨by omega, by omega⟩

/-- While there is room, the readings differ only in their places. -/
theorem Abreast.of_room (h : Abreast L cap s t) (room : s.errors.length < cap) :
    s.upTo cap = s ∧ t = { s with cursor := t.cursor } := by
  obtain ⟨cursor, errors, nested⟩ := t
  have same := h.errors
  rw [List.take_of_length_le (Nat.le_of_lt room)] at same
  exact ⟨ParseState.upTo_of_room (Nat.le_of_lt room), by rw [ParseState.mk.injEq]; exact ⟨rfl, same, h.nested⟩⟩

/-- Both readings record the same complaints, and as many. -/
theorem EndsAbreast.both [HasTexts α] {p : Parse α} {o o' : Outcome α} {errors : List SyntaxError}
    (ends : EndsAbreast L o o')
    (h : Ensures ⟨depth, cap⟩ s p fun a s' => a = o.result ∧ s' = o.state cap (errors.take cap))
    (h' : Ensures ⟨depth, cap⟩ t p fun b t' => b = o'.result ∧ t' = o'.state cap (errors.take cap)) :
    Both ⟨depth, cap⟩ s t p p fun a s' b t' => a = mapTexts L.view o'.result ∧
      s' = (o.whole errors).upTo cap ∧ b = o'.result ∧ Abreast L cap (o.whole errors) t' := by
  refine h.mono ?_
  rintro _ _ ⟨rfl, rfl⟩
  refine h'.mono ?_
  rintro _ _ ⟨rfl, rfl⟩
  rw [Outcome.state_take, Outcome.state_take]
  exact ⟨ends.result, rfl, rfl, ends.abreast cap errors⟩

/-- As long as there is room, all complaints so far are recorded. -/
theorem Abreast.both [HasTexts α] {p : Parse α} {o o' : Outcome α} (h : Abreast L cap s t)
    (room : s.errors.length < cap) (comes : ComesToWithRoom depth s p o)
    (comes' : ComesToWithRoom depth { s with cursor := t.cursor } p o') (ends : EndsAbreast L o o') :
    Both ⟨depth, cap⟩ (s.upTo cap) t p p fun a s' b t' => a = mapTexts L.view o'.result ∧
      s' = (o.whole s.errors).upTo cap ∧ b = o'.result ∧ Abreast L cap (o.whole s.errors) t' := by
  obtain ⟨same, same'⟩ := h.of_room room
  have all : s.errors.take cap = s.errors := List.take_of_length_le (Nat.le_of_lt room)
  rw [same, same']
  refine ends.both ?_ ?_
  · rw [all]
    exact comes cap room
  · rw [all]
    exact comes' cap room

theorem ComesToWithRoom.shorter {p : Parse (Option α)} {o : Outcome (Option α)}
    (h : ComesToWithRoom depth s p o) (consumes : Consumes p) (found : o.result.isSome = true) :
    o.cursor.rest.length < s.cursor.rest.length := by
  obtain ⟨⟨result, state⟩, shorter⟩ := (h _ (Nat.lt_succ_self _)).and (consumes _ s)
  rw [result, state] at shorter
  exact shorter found

/-- **Rounds are read abreast.** By induction on the fuel of the first reading, which lasts, since every round
reads something. -/
theorem Rounds.agree [HasTexts α] {next : Cursor → Bool} {round : Parse (Option α)}
    (h : Rounds L next round) {f : List α → Parse β} (grows : ∀ a, Grows (f a)) {n m : Nat}
    (quiet : Quiet L depth (manyFuel (rounds next round) n >>= f) s) (abreast : Abreast L cap s t)
    (enough : s.cursor.rest.length < n) (more : n ≤ m) :
    Both ⟨depth, cap⟩ (s.upTo cap) t (manyFuel (rounds next round) n) (manyFuel (rounds next round) m)
      fun a s' b t' => a = mapTexts L.view b ∧ ∃ s₁, s' = s₁.upTo cap ∧ Abreast L cap s₁ t' ∧
        Stopped L depth cap next (f a) s₁ := by
  induction n generalizing s t f m with
  | zero => omega
  | succ n ih =>
    obtain ⟨m, rfl⟩ : ∃ k, m = k + 1 := ⟨m - 1, by omega⟩
    have nothing (stops : next s.cursor = false ∨ cap ≤ s.errors.length)
        (stopped : Stopped L depth cap next (f []) s) :
        Both ⟨depth, cap⟩ (s.upTo cap) t (manyFuel (rounds next round) (n + 1))
          (manyFuel (rounds next round) (m + 1)) fun a s' b t' => a = mapTexts L.view b ∧
            ∃ s₁, s' = s₁.upTo cap ∧ Abreast L cap s₁ t' ∧ Stopped L depth cap next (f a) s₁ := by
      have declines : Declines ⟨depth, cap⟩ (s.upTo cap) (rounds next round) :=
        rounds_declines (stops.imp_right fun full => (abreast.full full).1)
      have declines' : Declines ⟨depth, cap⟩ t (rounds next round) := by
        rw [← h.next_eq abreast.level] at stops
        exact rounds_declines (stops.imp_right fun full => (abreast.full full).2)
      refine (declines.manyFuel (n + 1)).mono ?_
      rintro _ _ ⟨rfl, rfl⟩
      refine (declines'.manyFuel (m + 1)).mono ?_
      rintro _ _ ⟨rfl, rfl⟩
      exact ⟨rfl, s, rfl, abreast, stopped⟩
    by_cases here : next s.cursor = true
    · by_cases room : s.errors.length < cap
      · have left : s.cursor.rest ≠ [] := fun atEnd => by rw [h.next_atEnd atEnd] at here; cases here
        have here' : next t.cursor = true := (h.next_eq abreast.level).trans here
        obtain ⟨o, comes, either⟩ := h.agrees depth abreast.level here
        have comes : ComesToWithRoom depth s (rounds next round) o :=
          fun cap' room' => (rounds_of_room here room' _).2 (comes cap' room')
        rw [manyFuel, bind_assoc] at quiet
        obtain ⟨behind, silent⟩ := quiet.next comes fun r => (h.grows.furtherRounds n r).bind grows
        rcases either with ⟨e, he, tells⟩ | ⟨o', comes', ends⟩
        · exact absurd tells (silent e he)
        · have comes' : ComesToWithRoom depth { s with cursor := t.cursor } (rounds next round) o' :=
            fun cap' room' => (rounds_of_room (s := { s with cursor := t.cursor }) here' room' _).2
              (comes' cap' room')
          refine Both.bind (abreast.both room comes comes' ends) ?_
          rintro _ _ _ t' ⟨rfl, rfl, rfl, abreast'⟩
          rw [ends.result] at behind
          cases result : o'.result with
          | none =>
            rw [result] at behind
            exact ⟨rfl, _, rfl, abreast', .inl behind⟩
          | some b =>
            rw [result] at behind
            have behind : Quiet L depth
                ((return mapTexts L.view b :: (← manyFuel (rounds next round) n)) >>= f) _ := behind
            have shorter : (o.whole s.errors).cursor.rest.length < n := by
              have := comes.shorter h.consumes (by rw [ends.result, result]; rfl)
              exact Nat.lt_of_lt_of_le this (Nat.le_of_lt_succ enough)
            rw [bind_assoc] at behind
            refine Both.bind (ih (fun items => grows _) behind abreast' shorter (Nat.le_of_succ_le_succ more)) ?_
            rintro _ _ items t₂ ⟨rfl, ends⟩
            exact ⟨rfl, ends⟩
      · exact nothing (.inr (Nat.not_lt.1 room)) (.inr ⟨Nat.not_lt.1 room, here⟩)
    · have stops : next s.cursor = false := Bool.not_eq_true _ ▸ here
      exact nothing (.inl stops) (.inl (quiet.skip fun cap' => (rounds_declines (.inl stops)).manyFuel _))

/-! ## Sections -/

/-- Whether an import comes next. -/
def atImport (c : Cursor) : Bool := c.atKeyword "import"

/-- An import, with what is skipped behind it. -/
def importRound : Parse (Option Node) := leaving Cursor.skipLine importStatement some

theorem nextImport_eq : nextImport = rounds atImport importRound := rfl

theorem atKeyword_atEnd {c : Cursor} {word : String} (all : word.toList.all isWordChar = true)
    (ne : word.toList ≠ []) (atEnd : c.rest = []) : c.atKeyword word = false := by
  rw [Cursor.atKeyword, checkWord_atEnd all ne atEnd, Bool.false_and]

theorem left_of_atKeyword {c : Cursor} {word : String} (all : word.toList.all isWordChar = true)
    (ne : word.toList ≠ []) (here : c.atKeyword word = true) : c.rest ≠ [] := fun atEnd => by
  rw [atKeyword_atEnd all ne atEnd] at here
  cases here

theorem imports_rounds (L : Likeness) : Rounds L atImport importRound where
  next_eq level := level.atKeyword_eq (by decide) (by decide)
  next_atEnd := atKeyword_atEnd (by decide) (by decide)
  agrees depth level here :=
    have placed := level.placed (left_of_atKeyword (by decide) (by decide) here)
    leaving_agrees_withRoom (importStatement_agrees placed here) L.skipLine fun _ => rfl
  consumes := nextImport_eq ▸ nextImport_consumes
  grows := nextImport_eq ▸ nextImport_carries.grows

/-- Whether anything comes next. -/
def atMore (c : Cursor) : Bool := !c.atEnd

/-- A rule, with what is skipped behind it. -/
def ruleRound : Parse (Option Node) := do
  match ← rule with
  | none => return none
  | some rule =>
    if !rule.clean then
      move Cursor.synchronize
    skipBlank
    return some rule.node

theorem nextRule_eq : nextRule = rounds atMore ruleRound := by
  refine bind_congr fun c => ?_
  rw [atMore]
  cases c.atEnd with
  | true => rfl
  | false => rfl

theorem ruleRound_eq : ruleRound = (do
    let start ← cursor
    let before ← errorCount
    match ← ruleNode start with
    | none => return none
    | some (node, complete) =>
      if !(complete && (← errorCount) == before) then
        move Cursor.synchronize
      skipBlank
      return some node) := by
  simp only [ruleRound, rule_eq, bind_assoc]
  refine bind_congr fun start => bind_congr fun before => bind_congr fun r => ?_
  rcases r with _ | ⟨node, complete⟩
  · rfl
  · simp only [bind_assoc, pure_bind]

theorem ruleNode_traceless (start : Cursor) : Traceless (ruleNode start) := by
  refine identifier_traceless.bind .none fun name => .bind fun tail => ?_
  exact .bind fun node => .pure _

/-- What a rule comes to, with what is skipped behind it. -/
def Outcome.behindRule (o : Outcome (Option (Node × Bool))) : Outcome (Option Node) :=
  match o.result with
  | none => ⟨none, o.cursor, o.nested, o.complaints⟩
  | some (node, complete) =>
    Outcome.left o Cursor.synchronize (complete = false ∨ o.complaints ≠ []) (some node)

theorem ruleRound_comesTo {o : Outcome (Option (Node × Bool))}
    (comes : ComesTo depth s.cursor s.nestingReported (ruleNode s.cursor) o) :
    ComesToWithRoom depth s ruleRound (Outcome.behindRule o) := by
  intro cap room
  rw [ruleRound_eq, ensures_bind, ensures_cursor, ensures_bind, ensures_errorCount]
  refine (comes cap s.errors).bind ?_
  rintro _ _ ⟨rfl, rfl⟩
  rw [Outcome.behindRule]
  rcases o.result with _ | ⟨node, complete⟩
  · exact ⟨rfl, rfl⟩
  · refine leaving_withRoom room Cursor.synchronize (some node) fun after more => ?_
    have added : s.errors.length < after ↔ ¬ after = s.errors.length := by omega
    cases complete <;> simp [added]

theorem ComesTo.cursor_of_none {p : Parse (Option α)} {c : Cursor} {nested : Bool} {o : Outcome (Option α)}
    (h : ComesTo depth c nested p o) (traceless : Traceless p) (none : o.result = none) : o.cursor = c := by
  obtain ⟨⟨result, state⟩, same⟩ := (h 0 []).and (traceless ⟨depth, 0⟩ ⟨c, [], nested⟩)
  have untouched := same (result.trans none)
  rw [state] at untouched
  exact congrArg ParseState.cursor untouched

theorem ruleRound_agrees {c' : Cursor} (level : L.Level s.cursor c') (here : atMore s.cursor = true) :
    AgreeWithRoom L depth s c' ruleRound := by
  have left : s.cursor.rest ≠ [] := fun atEnd => by
    rw [atMore, Cursor.atEnd, atEnd] at here
    cases here
  obtain ⟨o, comes, tells | ⟨o', comes', matched⟩⟩ : L.AgreeAt depth s.nestingReported s.cursor c' _ _ :=
    ruleNode_agrees (level.placed left)
  · refine ⟨_, ruleRound_comesTo comes, .inl ?_⟩
    rw [Outcome.behindRule]
    split
    · exact tells.complaint
    · exact tells.complaint
  · refine ⟨_, ruleRound_comesTo comes, .inr
      ⟨_, ruleRound_comesTo (s := { s with cursor := c' }) comes', ?_⟩⟩
    have result := matched.result
    rw [Outcome.behindRule, Outcome.behindRule]
    rcases nothing : o'.result with _ | ⟨node, complete⟩
    · rw [nothing] at result
      rw [result]
      refine ⟨rfl, ?_, matched.nested, matched.complaints⟩
      show L.Level o.cursor o'.cursor
      rw [comes.cursor_of_none (ruleNode_traceless _) result,
        comes'.cursor_of_none (ruleNode_traceless _) nothing]
      exact level
    · rw [nothing] at result
      rw [result, matched.complaints]
      exact .left matched (fun placed => (Likeness.Level.synchronize placed).either) _ (some node)

theorem rules_rounds (L : Likeness) : Rounds L atMore ruleRound where
  next_eq level := congrArg not level.atEnd_eq
  next_atEnd atEnd := by rw [atMore, Cursor.atEnd, atEnd]; rfl
  agrees _ level here := ruleRound_agrees level here
  consumes := nextRule_eq ▸ nextRule_consumes
  grows := nextRule_eq ▸ nextRule_carries.grows

/-! ## Documents -/

theorem quiet_cursor (f : Cursor → Parse α) :
    Quiet L depth (cursor >>= f) s ↔ Quiet L depth (f s.cursor) s :=
  Iff.rfl

/-- How two readings of statements end. -/
def EndAbreast (L : Likeness) (a : List Node) (s : ParseState) (b : List Node) (t : ParseState) : Prop :=
  a = mapTexts L.view b ∧ t.errors = s.errors ∧ L.Level s.cursor t.cursor

theorem mapTexts_append (f : String → String) (front back : List Node) :
    mapTexts f front ++ mapTexts f back = mapTexts f (front ++ back) :=
  List.map_append.symm

/-- Behind what neither reading finds. -/
theorem both_nothing {γ δ : Type} {limits : Limits} {p : Parse α} {q : Parse β} {f : α → Parse γ}
    {g : β → Parse δ} {a : α} {b : β} {post : γ → ParseState → δ → ParseState → Prop}
    (h : Ensures limits s p fun r s' => r = a ∧ s' = s) (h' : Ensures limits t q fun r t' => r = b ∧ t' = t)
    (next : Both limits s t (f a) (g b) post) : Both limits s t (p >>= f) (q >>= g) post := by
  refine h.bind ?_
  rintro _ _ ⟨rfl, rfl⟩
  refine Ensures.mono next fun _ _ ends => ?_
  refine h'.bind ?_
  rintro _ _ ⟨rfl, rfl⟩
  exact ends

/-- **Rules abreast.** -/
theorem rulesFrom_agrees (abreast : Abreast L cap s t) (front : List Node)
    (stopped : Quiet L depth (rulesFrom (mapTexts L.view front)) s ∨ cap ≤ s.errors.length) :
    Both ⟨depth, cap⟩ (s.upTo cap) t (rulesFrom (mapTexts L.view front)) (rulesFrom front)
      (EndAbreast L) := by
  have grows (items : List Node) : Grows (pure (mapTexts L.view front ++ items)) := fun _ _ => .refl
  rw [rulesFrom, many, bind_assoc, nextRule_eq] at stopped ⊢
  rcases stopped with quiet | full
  · rw [quiet_cursor] at quiet
    rw [rulesFrom, many, bind_assoc, nextRule_eq, both_cursor]
    refine Both.bind ((rules_rounds L).agree grows quiet abreast (Nat.lt_succ_self _)
      (Nat.succ_le_succ abreast.level.length_le)) ?_
    rintro _ _ items t' ⟨rfl, s₁, rfl, abreast, -⟩
    exact ⟨mapTexts_append _ _ _, abreast.errors, abreast.level⟩
  · obtain ⟨full, full'⟩ := abreast.full full
    rw [rulesFrom, many, bind_assoc, nextRule_eq, both_cursor]
    have first : Declines ⟨depth, cap⟩ (s.upTo cap) (rounds atMore ruleRound) := rounds_declines (.inr full)
    have second : Declines ⟨depth, cap⟩ t (rounds atMore ruleRound) := rounds_declines (.inr full')
    refine both_nothing (first.manyFuel _) (second.manyFuel _) ?_
    exact ⟨mapTexts_append _ _ [], abreast.errors, abreast.level⟩

/-- Whether the default resolver comes next. -/
def resolverAhead (c : Cursor) : Bool :=
  c.atKeyword "resolver" && ((c.advanceBy "resolver".length).skipBlank).checkWord "default"

/-- The default resolver, with what is skipped behind it. -/
def resolverRound : Parse (List Node) := leaving Cursor.synchronize resolverDefault fun node => [node]

theorem resolverSection_eq : resolverSection = (do
    if resolverAhead (← cursor) then resolverRound else return []) := rfl

theorem resolverAhead_eq {c c' : Cursor} (level : L.Level c c') : resolverAhead c' = resolverAhead c := by
  rw [resolverAhead, resolverAhead, level.atKeyword_eq (by decide) (by decide)]
  by_cases first : c.atKeyword "resolver" = true
  · have placed := level.placed (left_of_atKeyword (by decide) (by decide) first)
    have behind := place_word placed (by decide) (checkWord_of_atKeyword first)
    rw [checkWord_skipBlank_eq behind (by decide) (by decide)]
  · rw [Bool.eq_false_iff.2 first, Bool.false_and, Bool.false_and]

/-- No import comes next where the default resolver does. -/
theorem not_atImport {c : Cursor} (ahead : resolverAhead c = true) : atImport c = false := by
  rw [resolverAhead, Bool.and_eq_true] at ahead
  have resolver := (Cursor.checkWord_iff (by decide)).1 (checkWord_of_atKeyword ahead.1)
  rw [← Bool.not_eq_true]
  intro here
  have other := (Cursor.checkWord_iff (by decide)).1 (checkWord_of_atKeyword here)
  rw [resolver] at other
  exact absurd other (by decide)

theorem resolverSection_of_ahead {limits : Limits} (ahead : resolverAhead s.cursor = true)
    (post : List Node → ParseState → Prop) :
    Ensures limits s resolverSection post ↔ Ensures limits s resolverRound post := by
  simp only [resolverSection_eq, ensures_bind, ensures_cursor, ahead, if_true]

theorem resolverSection_of_away {limits : Limits} (away : resolverAhead s.cursor = false) :
    Ensures limits s resolverSection fun a t => a = [] ∧ t = s := by
  simp only [resolverSection_eq, ensures_bind, ensures_cursor, away, Bool.false_eq_true, if_false]
  exact ⟨rfl, rfl⟩

/-- The default resolver, which is read even where no more errors are recorded. -/
theorem resolverSection_agrees (abreast : Abreast L cap s t) (ahead : resolverAhead s.cursor = true)
    {f : List Node → Parse α} (grows : ∀ a, Grows (f a))
    (quiet : Quiet L depth (resolverSection >>= f) s) :
    Both ⟨depth, cap⟩ (s.upTo cap) t resolverSection resolverSection fun a s' b t' =>
      a = mapTexts L.view b ∧ ∃ s₁, s' = s₁.upTo cap ∧ Abreast L cap s₁ t' ∧
        (Quiet L depth (f a) s₁ ∨ cap ≤ s₁.errors.length) := by
  have ahead' : resolverAhead t.cursor = true := (resolverAhead_eq abreast.level).trans ahead
  have words := ahead
  rw [resolverAhead, Bool.and_eq_true] at words
  have placed := abreast.level.placed (left_of_atKeyword (by decide) (by decide) words.1)
  have skips {c c' : Cursor} (placed : L.place c c') := (Likeness.Level.synchronize placed).either
  have agree : L.AgreeAt depth s.nestingReported s.cursor t.cursor resolverDefault resolverDefault :=
    resolverDefault_agrees placed words.1 words.2
  obtain ⟨o, comes, either⟩ := agree
  have round : ComesToWithRoom depth s resolverSection _ := fun cap' room =>
    (resolverSection_of_ahead ahead _).2 (comes.leaving Cursor.synchronize (fun node => [node]) cap' room)
  obtain ⟨behind, silent⟩ := quiet.next round grows
  rcases either with tells | ⟨o', comes', matched⟩
  · obtain ⟨e, he, telling⟩ := tells.complaint
    exact absurd telling (silent e he)
  · by_cases room : s.errors.length < cap
    · have ends : EndsAbreast L (Outcome.left o Cursor.synchronize (False ∨ o.complaints ≠ []) [o.result])
          (Outcome.left o' Cursor.synchronize (False ∨ o'.complaints ≠ []) [o'.result]) := by
        rw [matched.result, matched.complaints]
        exact .left matched skips _ [o'.result]
      have round' : ComesToWithRoom depth { s with cursor := t.cursor } resolverSection _ := fun cap' room =>
        (resolverSection_of_ahead (s := { s with cursor := t.cursor }) ahead' _).2
          (ComesTo.leaving (s := { s with cursor := t.cursor }) comes' Cursor.synchronize
            (fun node => [node]) cap' room)
      refine (abreast.both room round round' ends).mono ?_
      rintro _ _ _ t' ⟨rfl, rfl, rfl, abreast⟩
      exact ⟨rfl, _, rfl, abreast, .inl (ends.result ▸ behind)⟩
    · have comes' : ComesTo depth t.cursor t.nestingReported resolverDefault o' := abreast.nested ▸ comes'
      have full := Nat.not_lt.1 room
      have ends : EndsAbreast L (Outcome.left o Cursor.synchronize False [o.result])
          (Outcome.left o' Cursor.synchronize False [o'.result]) := by
        rw [matched.result]
        exact .left matched skips False [o'.result]
      have first := (resolverSection_of_ahead (s := s.upTo cap) ahead _).2
        (ComesTo.leaving_full (s := s.upTo cap) comes (abreast.full full).1 Cursor.synchronize fun node => [node])
      have second := (resolverSection_of_ahead ahead' _).2
        (comes'.leaving_full (abreast.full full).2 Cursor.synchronize fun node => [node])
      rw [abreast.errors] at second
      refine (ends.both first second).mono ?_
      rintro _ _ _ t' ⟨rfl, rfl, rfl, abreast⟩
      refine ⟨rfl, _, rfl, abreast, .inr ?_⟩
      rw [Outcome.whole, List.length_append]
      exact Nat.le_add_right_of_le full

/-- The default resolver, and the rules behind it. -/
theorem resolverFrom_agrees (abreast : Abreast L cap s t) (front : List Node)
    (stopped : Stopped L depth cap atImport (resolverFrom (mapTexts L.view front)) s) :
    Both ⟨depth, cap⟩ (s.upTo cap) t (resolverFrom (mapTexts L.view front)) (resolverFrom front)
      (EndAbreast L) := by
  by_cases ahead : resolverAhead s.cursor = true
  · have quiet := stopped.resolve_right fun stuck => by
      rw [not_atImport ahead] at stuck
      cases stuck.2
    refine Both.bind (resolverSection_agrees abreast ahead (fun _ => rulesFrom_grows _) quiet) ?_
    rintro _ _ resolver t' ⟨rfl, s₁, rfl, abreast, stopped⟩
    rw [mapTexts_append] at stopped ⊢
    exact rulesFrom_agrees abreast _ stopped
  · have away : resolverAhead s.cursor = false := Bool.not_eq_true _ ▸ ahead
    have away' : resolverAhead t.cursor = false := (resolverAhead_eq abreast.level).trans away
    have none : mapTexts L.view front ++ [] = mapTexts L.view (front ++ []) := mapTexts_append _ _ []
    have further : Quiet L depth (rulesFrom (mapTexts L.view (front ++ []))) s ∨ cap ≤ s.errors.length := by
      rw [← none]
      exact stopped.imp (fun quiet => quiet.skip fun _ => resolverSection_of_away away) And.left
    refine both_nothing (resolverSection_of_away (s := s.upTo cap) away) (resolverSection_of_away away') ?_
    rw [none]
    exact rulesFrom_agrees abreast _ further

theorem importsFrom_agrees (abreast : Abreast L cap s t) (front : List Node)
    (quiet : Quiet L depth (importsFrom (mapTexts L.view front)) s) :
    Both ⟨depth, cap⟩ (s.upTo cap) t (importsFrom (mapTexts L.view front)) (importsFrom front)
      (EndAbreast L) := by
  rw [importsFrom, many, bind_assoc, nextImport_eq] at quiet ⊢
  rw [quiet_cursor] at quiet
  rw [importsFrom, many, bind_assoc, nextImport_eq, both_cursor]
  refine Both.bind ((imports_rounds L).agree (fun _ => resolverFrom_grows _) quiet abreast
    (Nat.lt_succ_self _) (Nat.succ_le_succ abreast.level.length_le)) ?_
  rintro _ _ imports t' ⟨rfl, s₁, rfl, abreast, stopped⟩
  rw [mapTexts_append] at stopped ⊢
  exact resolverFrom_agrees abreast _ stopped

theorem versionSection_agrees {c c' : Cursor} (depth : Nat) (nested : Bool) (level : L.Level c c') :
    ∃ o, ComesTo depth c nested versionSection o ∧ ((∃ e ∈ o.complaints, L.tells e) ∨
      ∃ o', ComesTo depth c' nested versionSection o' ∧ EndsAbreast L o o') := by
  by_cases here : c.atKeyword "version" = true
  · have here' : c'.atKeyword "version" = true := (level.atKeyword_eq (by decide) (by decide)).trans here
    have node {d : Cursor} {o : Outcome Node} (here : d.atKeyword "version" = true)
        (comes : ComesTo depth d nested versionStatement o) :
        ComesTo depth d nested versionSection (Outcome.left o id False [o.result]) := by
      intro cap errors
      simp only [versionSection, ensures_bind, ensures_cursor, here, if_true]
      refine (comes cap errors).mono ?_
      rintro _ _ ⟨rfl, rfl⟩
      exact ⟨rfl, rfl⟩
    have placed := level.placed (left_of_atKeyword (by decide) (by decide) here)
    obtain ⟨o, comes, tells | ⟨o', comes', matched⟩⟩ : L.AgreeAt depth nested c c' _ _ :=
      versionStatement_agrees placed here
    · exact ⟨_, node here comes, .inl tells.complaint⟩
    · refine ⟨_, node here comes, .inr ⟨_, node here' comes', ?_⟩⟩
      rw [matched.result]
      exact .left matched .inl _ [o'.result]
  · have away : c.atKeyword "version" = false := Bool.not_eq_true _ ▸ here
    have away' : c'.atKeyword "version" = false := (level.atKeyword_eq (by decide) (by decide)).trans away
    have nothing {d : Cursor} (away : d.atKeyword "version" = false) :
        ComesTo depth d nested versionSection ⟨[], d, nested, []⟩ := .quiet fun cap errors => by
      simp only [versionSection, ensures_bind, ensures_cursor, away, Bool.false_eq_true, if_false]
      exact ⟨rfl, rfl⟩
    exact ⟨_, nothing away, .inr ⟨_, nothing away', rfl, level, rfl, rfl⟩⟩

theorem statements_agrees (placed : L.place s.cursor t.cursor) (errors : t.errors = s.errors.take cap)
    (nested : t.nestingReported = s.nestingReported) (quiet : Quiet L depth statements s) :
    Both ⟨depth, cap⟩ (s.upTo cap) t statements statements (EndAbreast L) := by
  have level := Likeness.Level.behindBlank (.inl placed)
  have quiet : Quiet L depth (versionSection >>= importsFrom) { s with cursor := s.cursor.skipBlank } := quiet
  rw [statements, both_skipBlank]
  obtain ⟨o, comes, ⟨e, he, tells⟩ | ⟨o', comes', ends⟩⟩ :=
    versionSection_agrees depth s.nestingReported level
  · exact absurd tells ((quiet.next comes.withRoom fun _ => importsFrom_grows _).2 e he)
  · rw [← nested] at comes'
    have second : Ensures ⟨depth, cap⟩ { t with cursor := t.cursor.skipBlank } versionSection fun b t' =>
        b = o'.result ∧ t' = o'.state cap (s.errors.take cap) := by
      rw [← errors]
      exact comes' cap t.errors
    refine Both.bind (ends.both (comes cap (s.errors.take cap)) second) ?_
    rintro _ _ version t' ⟨rfl, rfl, rfl, abreast⟩
    have further := (quiet.next comes.withRoom fun _ => importsFrom_grows _).1
    rw [ends.result] at further
    exact importsFrom_agrees abreast _ further

end Parse

/-- **Texts that read alike.** Two texts that read alike have the same errors and, with the texts of the
second tree seen through the view, the same trees, unless a complaint about the first text tells that they may
differ. What is asked of the complaints is asked of all there are, under a limit that is not reached. -/
theorem Likeness.same_reading (L : Likeness) {limits : Limits} {text text' : List Char} {cap : Nat}
    (start : L.place (.ofChars text) (.ofChars text'))
    (room : (readWithin ⟨limits.depth, cap⟩ text).2.errors.length < cap)
    (quiet : ∀ e ∈ (readWithin ⟨limits.depth, cap⟩ text).2.errors, ¬ L.tells e) :
    (readWithin limits text).1 = (readWithin limits text').1.mapText L.view ∧
      (readWithin limits text').2.errors = (readWithin limits text).2.errors := by
  have both : Parse.Both limits (ParseState.upTo limits.errors ⟨.ofChars text, [], false⟩)
      ⟨.ofChars text', [], false⟩ Parse.document Parse.document fun a s b t =>
        a = mapTexts L.view b ∧ t.errors = s.errors := by
    have inside : Parse.Quiet L limits.depth Parse.statements ⟨.ofChars text, [], false⟩ := by
      rw [readWithin, Parse.document_eq] at room quiet
      exact ⟨cap, Nat.lt_of_le_of_lt (Nat.zero_le _) room, room, quiet⟩
    rw [Parse.document_eq, Parse.both_cursor]
    refine Parse.Both.bind (Parse.statements_agrees start List.take_nil.symm rfl inside) ?_
    rintro _ s' statements t' ⟨rfl, errors, level⟩
    refine ⟨?_, errors⟩
    show Node.branch .root _ _ = Node.mapText L.view (.branch .root _ _)
    rw [Node.branch, Node.branch, Node.mapText_mk, level.spanFrom_eq start]
    rfl
  rw [ParseState.upTo, List.take_nil] at both
  exact both

end PatternRules

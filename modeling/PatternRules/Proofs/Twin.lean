import PatternRules.Proofs.Frame
import PatternRules.Proofs.Settles.Document

/-!
Two readings in step: one of a text by itself, one of the same text in a frame. `Follows F E p q` says
that `q`, read in the frame, does what `p` does on the text, unless the two part, in states related by
`E`. The second reading gives the nodes of the first, moved down, and complains as often.

The readings may only part at the seam, where the text ends and the rule behind it begins (`Seam`). What is
read behind blanks has to find nothing there (`Follows.afterBlank`).
-/

namespace PatternRules

/-! ## States in step -/

/-- The second state is the first one, seen in the frame. In front of a rule the errors need only be as many:
what is complained about at the end of the text may be said of the rule there. -/
structure Aligned (F : Frame) (s t : ParseState) : Prop where
  reached : (Cursor.ofChars F.text).Reaches s.cursor
  cursor : t.cursor = F.lift s.cursor
  count : t.errors.length = s.errors.length
  errors : F.behind = [] → t.errors = s.errors.map (SyntaxError.down F.lines)
  nesting : t.nestingReported = s.nestingReported

/-- The first reading has come to the end of the text, the second to the rule behind it. -/
structure Seam (F : Frame) (s t : ParseState) : Prop where
  reached : (Cursor.ofChars F.text).Reaches s.cursor
  atEnd : s.cursor.rest = []
  cursor : t.cursor = (F.lift s.cursor).advance
  behind : F.behind = '\n' :: t.cursor.rest
  rule : startsRule t.cursor.rest = true
  count : t.errors.length = s.errors.length
  nesting : t.nestingReported = s.nestingReported

/-- Behind blanks: in step, but not where the text ends in front of the rule, or at the seam. -/
def Placed (F : Frame) (s t : ParseState) : Prop :=
  Aligned F s t ∧ (F.behind = [] ∨ s.cursor.rest ≠ []) ∨ Seam F s t

namespace Aligned

variable {F : Frame} {s t : ParseState}

theorem move (h : Aligned F s t) {c d : Cursor} (reaches : s.cursor.Reaches c) (lifted : d = F.lift c) :
    Aligned F { s with cursor := c } { t with cursor := d } :=
  ⟨h.reached.trans reaches, lifted, h.count, h.errors, h.nesting⟩

theorem advanceBy (h : Aligned F s t) {n : Nat} (fits : n ≤ s.cursor.rest.length) :
    Aligned F { s with cursor := s.cursor.advanceBy n } { t with cursor := t.cursor.advanceBy n } :=
  h.move (Cursor.reaches_advanceBy n _) (by rw [h.cursor, Frame.lift_advanceBy fits])

theorem advance (h : Aligned F s t) (some : s.cursor.rest ≠ []) :
    Aligned F { s with cursor := s.cursor.advance } { t with cursor := t.cursor.advance } :=
  h.move (Cursor.reaches_advance _) (by rw [h.cursor, Frame.lift_advance some])

theorem skipWhile (h : Aligned F s t) {p : Char → Bool} (newline : p '\n' = false) :
    Aligned F { s with cursor := s.cursor.skipWhile p }
      { t with cursor := t.cursor.skipWhile p } :=
  h.move (Cursor.reaches_skipWhile _ p) (by rw [h.cursor, Frame.lift_skipWhile newline])

theorem skipInlineBlank (h : Aligned F s t) :
    Aligned F { s with cursor := s.cursor.skipInlineBlank }
      { t with cursor := t.cursor.skipInlineBlank } :=
  h.skipWhile rfl

/-- Behind blanks both readings are in step again, unless they have come to the seam. -/
theorem skipBlank (h : Aligned F s t) :
    Placed F { s with cursor := s.cursor.skipBlank } { t with cursor := t.cursor.skipBlank } := by
  have within := Frame.blankRun_le_length false s.cursor.rest
  rcases F.nextRule with none | ⟨line, behind, rule⟩
  · refine .inl ⟨?_, .inl none⟩
    have same : t.cursor.skipBlank = t.cursor.advanceBy (blankRun false s.cursor.rest) := by
      rw [Cursor.skipBlank, h.cursor, Frame.rest_lift, none, List.append_nil]
    rw [same]
    exact h.advanceBy within
  · have run := Frame.blankRun_append_rule rule false s.cursor.rest
    rw [← behind] at run
    split at run
    · next inside =>
      have same : t.cursor.skipBlank = t.cursor.advanceBy (blankRun false s.cursor.rest) := by
        rw [Cursor.skipBlank, h.cursor, Frame.rest_lift, run]
      rw [same]
      refine .inl ⟨h.advanceBy within, .inr ?_⟩
      rw [Cursor.skipBlank, Cursor.rest_advanceBy]
      exact fun none => absurd (List.drop_eq_nil_iff.1 none) (Nat.not_le.2 inside)
    · next outside =>
      have all : blankRun false s.cursor.rest = s.cursor.rest.length :=
        Nat.le_antisymm within (Nat.not_lt.1 outside)
      have atEnd : s.cursor.skipBlank.rest = [] := by
        rw [Cursor.skipBlank, Cursor.rest_advanceBy, all, List.drop_length]
      have cursor : t.cursor.skipBlank = (F.lift s.cursor.skipBlank).advance := by
        rw [Cursor.skipBlank, h.cursor, Frame.rest_lift, run, Cursor.advanceBy_add,
          ← Frame.lift_advanceBy (Nat.le_refl _), Cursor.skipBlank, all]
        rfl
      have rest : t.cursor.skipBlank.rest = line := by
        rw [cursor, Cursor.rest_advance, Frame.rest_lift, atEnd, behind]
        rfl
      exact .inr ⟨h.reached.trans (Cursor.reaches_skipBlank _), atEnd, cursor,
        by rw [rest]; exact behind, by rw [rest]; exact rule, h.count, h.nesting⟩

theorem atEnd (aligned : Aligned F s t) (inside : F.behind = [] ∨ s.cursor.rest ≠ []) :
    t.cursor.atEnd = s.cursor.atEnd := by
  rw [Cursor.atEnd, Cursor.atEnd, aligned.cursor, Frame.rest_lift]
  rcases inside with nothing | left
  · rw [nothing, List.append_nil]
  · cases hrest : s.cursor.rest with
    | nil => exact absurd hrest left
    | cons c rest => rfl

end Aligned

/-! ## Readings in step -/

/-- Results of a reading that can be moved down some lines. -/
class Shifts (α : Type) where
  shift : Nat → α → α

export Shifts (shift)

namespace Shifts

variable {α β : Type}

instance : Shifts Unit := ⟨fun _ a => a⟩

instance : Shifts Bool := ⟨fun _ a => a⟩

instance : Shifts Node := ⟨Node.down⟩

instance : Shifts Parse.Rule := ⟨fun k rule => { rule with node := rule.node.down k }⟩

instance [Shifts α] : Shifts (Option α) := ⟨fun k => Option.map (shift k)⟩

instance [Shifts α] : Shifts (List α) := ⟨fun k => List.map (shift k)⟩

instance [Shifts α] [Shifts β] : Shifts (α × β) := ⟨fun k => Prod.map (shift k) (shift k)⟩

@[simp]
theorem shift_bool (k : Nat) (b : Bool) : shift k b = b := rfl

@[simp]
theorem shift_some [Shifts α] (k : Nat) (a : α) : shift k (some a) = some (shift k a) := rfl

end Shifts

/-- How two readings may part. -/
abbrev Parting := Limits → ParseState → ParseState → Prop

/-- The readings never part. -/
def never : Parting := fun _ _ _ => False

/-- Readings that have parted do not come together again. -/
class Lasting (E : Parting) : Prop where
  keeps : ∀ {limits s t s' t'}, E limits s t → Extends limits s.errors s'.errors →
    Extends limits t.errors t'.errors → E limits s' t'

instance : Lasting never := ⟨fun parted _ _ => parted⟩

namespace Parse

variable {α β : Type} [Shifts α] [Shifts β] {F : Frame} {E : Parting} {limits : Limits}
  {s t : ParseState}

/-- `p` only ever adds errors. -/
def Grows {α : Type} (p : Parse α) : Prop :=
  ∀ limits s, Ensures limits s p fun _ t => Extends limits s.errors t.errors

/-- Reading with `p` from `s` and with `q` from `t` gives results and ends in states that satisfy
`post`. -/
def Both {α β : Type} (limits : Limits) (s t : ParseState) (p : Parse α) (q : Parse β)
    (post : α → ParseState → β → ParseState → Prop) : Prop :=
  Ensures limits s p fun a s' => Ensures limits t q fun b t' => post a s' b t'

theorem Both.bind {α β γ δ : Type} {limits : Limits} {s t : ParseState} {p : Parse α} {q : Parse β}
    {f : α → Parse γ} {g : β → Parse δ} {post : α → ParseState → β → ParseState → Prop}
    {post' : γ → ParseState → δ → ParseState → Prop} (h : Both limits s t p q post)
    (next : ∀ a s' b t', post a s' b t' → Both limits s' t' (f a) (g b) post') :
    Both limits s t (p >>= f) (q >>= g) post' :=
  next _ _ _ _ h

theorem Both.mono {α β : Type} {limits : Limits} {s t : ParseState} {p : Parse α} {q : Parse β}
    {post post' : α → ParseState → β → ParseState → Prop} (h : Both limits s t p q post)
    (weaker : ∀ a s' b t', post a s' b t' → post' a s' b t') : Both limits s t p q post' :=
  weaker _ _ _ _ h

theorem both_cursor {α β : Type} {post : α → ParseState → β → ParseState → Prop} (f : Cursor → Parse α)
    (g : Cursor → Parse β) :
    Both limits s t (cursor >>= f) (cursor >>= g) post ↔
      Both limits s t (f s.cursor) (g t.cursor) post :=
  Iff.rfl

theorem both_move {α β : Type} {post : α → ParseState → β → ParseState → Prop} (m m' : Cursor → Cursor)
    (f : Unit → Parse α) (g : Unit → Parse β) :
    Both limits s t (move m >>= f) (move m' >>= g) post ↔
      Both limits { s with cursor := m s.cursor } { t with cursor := m' t.cursor } (f ()) (g ()) post :=
  Iff.rfl

theorem both_skipBlank {α β : Type} {post : α → ParseState → β → ParseState → Prop} (f : Unit → Parse α)
    (g : Unit → Parse β) :
    Both limits s t (skipBlank >>= f) (skipBlank >>= g) post ↔
      Both limits { s with cursor := s.cursor.skipBlank } { t with cursor := t.cursor.skipBlank } (f ())
        (g ()) post :=
  Iff.rfl

theorem both_errorsFull {α β : Type} {post : α → ParseState → β → ParseState → Prop} (f : Bool → Parse α)
    (g : Bool → Parse β) :
    Both limits s t (errorsFull >>= f) (errorsFull >>= g) post ↔
      Both limits s t (f (decide (limits.errors ≤ s.errors.length)))
        (g (decide (limits.errors ≤ t.errors.length))) post :=
  Iff.rfl

theorem both_errorCount {α β : Type} {post : α → ParseState → β → ParseState → Prop} (f : Nat → Parse α)
    (g : Nat → Parse β) :
    Both limits s t (errorCount >>= f) (errorCount >>= g) post ↔
      Both limits s t (f s.errors.length) (g t.errors.length) post :=
  Iff.rfl

/-- The second result is the first one, moved down, and the states are related. -/
structure Matched (R : ParseState → ParseState → Prop) (k : Nat) (a : α) (s : ParseState) (b : α)
    (t : ParseState) : Prop where
  result : b = shift k a
  states : R s t

/-- From `s` and `t`, `q` does in the frame what `p` does on the text, unless they part. -/
def FollowsAt (F : Frame) (E : Parting) (limits : Limits) (s t : ParseState) (p q : Parse α) : Prop :=
  Both limits s t p q fun a s' b t' => Matched (Aligned F) F.lines a s' b t' ∨ E limits s' t'

/-- From all states in step, `q` does in the frame what `p` does on the text, unless they part. -/
def Follows (F : Frame) (E : Parting) (p q : Parse α) : Prop :=
  ∀ limits s t, Aligned F s t → FollowsAt F E limits s t p q

theorem FollowsAt.matched {p q : Parse α} (h : FollowsAt F never limits s t p q) :
    Both limits s t p q (Matched (Aligned F) F.lines) := by
  rcases h with matched | parted
  · exact matched
  · exact parted.elim

theorem FollowsAt.mayPart {p q : Parse α} (h : FollowsAt F never limits s t p q) :
    FollowsAt F E limits s t p q :=
  .inl h.matched

theorem Follows.mayPart {p q : Parse α} (h : Follows F never p q) : Follows F E p q :=
  fun limits s t aligned => (h limits s t aligned).mayPart

theorem FollowsAt.pure (h : Aligned F s t) (a : α) :
    FollowsAt F E limits s t (pure a) (pure (shift F.lines a)) :=
  .inl ⟨rfl, h⟩

/-- Two readings in a row, the first of which does not part. -/
theorem FollowsAt.then {p q : Parse α} {f g : α → Parse β} (h : FollowsAt F never limits s t p q)
    (next : ∀ a s' t', Aligned F s' t' → FollowsAt F E limits s' t' (f a) (g (shift F.lines a))) :
    FollowsAt F E limits s t (p >>= f) (q >>= g) := by
  refine Both.bind h.matched ?_
  rintro a s' _ t' ⟨rfl, aligned⟩
  exact next a s' t' aligned

/-- **Two readings in a row stay in step.** -/
theorem FollowsAt.bind [Lasting E] {p q : Parse α} {f g : α → Parse β}
    (h : FollowsAt F E limits s t p q)
    (next : ∀ a s' t', Aligned F s' t' → FollowsAt F E limits s' t' (f a) (g (shift F.lines a)))
    (grows : ∀ a, Grows (f a)) (grows' : ∀ b, Grows (g b)) :
    FollowsAt F E limits s t (p >>= f) (q >>= g) := by
  refine Both.bind h ?_
  rintro a s' b t' (⟨rfl, aligned⟩ | parted)
  · exact next a s' t' aligned
  · exact .inr (Lasting.keeps parted (grows a limits s') (grows' b limits t'))

/-! ### Basic steps -/

theorem followsAt_cursor (f g : Cursor → Parse β) :
    FollowsAt F E limits s t (cursor >>= f) (cursor >>= g) ↔
      FollowsAt F E limits s t (f s.cursor) (g t.cursor) :=
  Iff.rfl

theorem followsAt_peek (f g : Option Char → Parse β) :
    FollowsAt F E limits s t (peek >>= f) (peek >>= g) ↔
      FollowsAt F E limits s t (f s.cursor.peek) (g t.cursor.peek) :=
  Iff.rfl

theorem followsAt_move (m m' : Cursor → Cursor) (f g : Unit → Parse β) :
    FollowsAt F E limits s t (move m >>= f) (move m' >>= g) ↔
      FollowsAt F E limits { s with cursor := m s.cursor } { t with cursor := m' t.cursor } (f ())
        (g ()) :=
  Iff.rfl

theorem followsAt_skipBlank (f g : Unit → Parse β) :
    FollowsAt F E limits s t (skipBlank >>= f) (skipBlank >>= g) ↔
      FollowsAt F E limits { s with cursor := s.cursor.skipBlank }
        { t with cursor := t.cursor.skipBlank } (f ()) (g ()) :=
  Iff.rfl

theorem followsAt_spanFrom (start start' : Cursor) (f g : Span → Parse β) :
    FollowsAt F E limits s t (spanFrom start >>= f) (spanFrom start' >>= g) ↔
      FollowsAt F E limits s t (f (s.cursor.spanFrom start.mark)) (g (t.cursor.spanFrom start'.mark)) :=
  Iff.rfl

theorem followsAt_get (f g : ParseState → Parse β) :
    FollowsAt F E limits s t (get >>= f) (get >>= g) ↔ FollowsAt F E limits s t (f s) (g t) :=
  Iff.rfl

theorem followsAt_errorCount (f g : Nat → Parse β) :
    FollowsAt F E limits s t (errorCount >>= f) (errorCount >>= g) ↔
      FollowsAt F E limits s t (f s.errors.length) (g t.errors.length) :=
  Iff.rfl

theorem followsAt_modify (m m' : ParseState → ParseState) (f g : Unit → Parse β) :
    FollowsAt F E limits s t (modify m >>= f) (modify m' >>= g) ↔
      FollowsAt F E limits (m s) (m' t) (f ()) (g ()) :=
  Iff.rfl

theorem followsAt_read (f g : Limits → Parse β) :
    FollowsAt F E limits s t (read >>= f) (read >>= g) ↔
      FollowsAt F E limits s t (f limits) (g limits) :=
  Iff.rfl

/-- Blanks within a line, and then readings in step. -/
theorem FollowsAt.overInlineBlank {f g : Unit → Parse β} (aligned : Aligned F s t)
    (next : ∀ s' t', Aligned F s' t' → FollowsAt F E limits s' t' (f ()) (g ())) :
    FollowsAt F E limits s t (skipInlineBlank >>= f) (skipInlineBlank >>= g) :=
  next _ _ aligned.skipInlineBlank

theorem branchFrom_follows (kind : Kind) {start : Cursor} (h : (Cursor.ofChars F.text).Reaches start)
    (children : List Node) :
    Follows F E (branchFrom kind start children)
      (branchFrom kind (F.lift start) (shift F.lines children)) := by
  intro limits s t aligned
  refine .inl ⟨?_, aligned⟩
  show Node.branch kind _ (t.cursor.spanFrom (F.lift start).mark) =
    Node.down F.lines (.branch kind children (s.cursor.spanFrom start.mark))
  rw [Node.branch, Node.branch, Node.down_mk, aligned.cursor, Frame.spanFrom_lift h aligned.reached]
  rfl

theorem textNodeFrom_follows (kind : Kind) {start : Cursor}
    (h : (Cursor.ofChars F.text).Reaches start) (children : List Node) :
    Follows F E (textNodeFrom kind start children)
      (textNodeFrom kind (F.lift start) (shift F.lines children)) := by
  intro limits s t aligned
  refine .inl ⟨?_, aligned⟩
  show Node.mk kind (some (.text (String.ofList (t.cursor.textSince (F.lift start))))) _
    (t.cursor.spanFrom (F.lift start).mark) = Node.down F.lines ⟨kind,
      some (.text (String.ofList (s.cursor.textSince start))), children, s.cursor.spanFrom start.mark⟩
  rw [Node.down_mk, aligned.cursor, Frame.spanFrom_lift h aligned.reached,
    Frame.textSince_lift h aligned.reached]
  rfl

theorem takeLeaf_follows (kind : Kind) {n : Nat} (fits : n ≤ s.cursor.rest.length)
    (aligned : Aligned F s t) : FollowsAt F E limits s t (takeLeaf kind n) (takeLeaf kind n) := by
  rw [takeLeaf, followsAt_cursor, followsAt_move, aligned.cursor]
  have moved := aligned.advanceBy fits
  rw [aligned.cursor] at moved
  exact textNodeFrom_follows kind aligned.reached [] limits _ _ moved

/-! ### Errors -/

theorem aligned_recording (h : Aligned F s t) (limits : Limits) (e : SyntaxError) :
    Aligned F (s.recording limits e) (t.recording limits (e.down F.lines)) := by
  unfold ParseState.recording
  rw [h.count]
  split
  · exact h
  · refine ⟨h.reached, h.cursor, by simp [h.count], ?_, h.nesting⟩
    intro nothing
    rw [h.errors nothing, List.map_append]
    rfl

theorem report_follows (complaint : Complaint) (span : Span) :
    Follows F never (report complaint span) (report complaint (span.down F.lines)) := by
  intro limits s t h
  simp only [FollowsAt, Both, ensures_report]
  exact .inl ⟨rfl, aligned_recording h limits ⟨complaint.message, span⟩⟩

/-- A complaint about what was read since some place. -/
theorem reportFrom_follows (complaint : Complaint) {start : Cursor}
    (h : (Cursor.ofChars F.text).Reaches start) :
    Follows F never (do report complaint (← spanFrom start))
      (do report complaint (← spanFrom (F.lift start))) := by
  intro limits s t aligned
  rw [followsAt_spanFrom, aligned.cursor, Frame.spanFrom_lift h aligned.reached]
  exact report_follows complaint _ limits s t aligned

theorem reportHere_follows (complaint : Complaint) :
    Follows F never (reportHere complaint) (reportHere complaint) := by
  intro limits s t aligned
  rw [reportHere, followsAt_cursor, aligned.cursor, Frame.nextSpan_lift]
  exact report_follows complaint _ limits s t aligned

theorem reportHere_grows (complaint : Complaint) : Grows (reportHere complaint) := by
  intro limits s
  simp only [reportHere, ensures_bind, ensures_cursor, ensures_report]
  exact .recording s _

/-- A complaint that has to be made in both readings or in none. -/
theorem FollowsAt.complaining {complain : Parse Unit} {rest rest' : Unit → Parse β} {c : Prop}
    [Decidable c] (aligned : Aligned F s t) (h : Follows F never complain complain)
    (next : ∀ s' t', Aligned F s' t' → FollowsAt F E limits s' t' (rest ()) (rest' ())) :
    FollowsAt F E limits s t (if c then complain >>= rest else rest ())
      (if c then complain >>= rest' else rest' ()) := by
  split
  · exact next _ _ (h limits s t aligned).matched.states
  · exact next s t aligned

theorem missing_grows {α : Type} (complaint : Complaint) (r : Option α) :
    Grows (do
      if r.isNone then
        reportHere complaint
      return r) := by
  intro limits s
  cases r with
  | none => exact reportHere_grows complaint limits s
  | some a => exact .refl

theorem FollowsAt.orReport [Lasting E] {p q : Parse (Option α)} (h : FollowsAt F E limits s t p q)
    (complaint : Complaint) : FollowsAt F E limits s t (orReport complaint p) (orReport complaint q) := by
  refine h.bind ?_ (missing_grows complaint) (missing_grows complaint)
  intro r s' t' aligned'
  cases r with
  | none => exact .inl ⟨rfl, (reportHere_follows complaint limits s' t' aligned').matched.states⟩
  | some a => exact .pure aligned' (some a)

theorem Follows.orReport [Lasting E] {p q : Parse (Option α)} (h : Follows F E p q)
    (complaint : Complaint) : Follows F E (orReport complaint p) (orReport complaint q) :=
  fun limits s t aligned => (h limits s t aligned).orReport complaint

/-! ### Matching -/

/-- A match that is made in the frame where it is made in the text. -/
theorem accept_follows {match? : Cursor → Option Cursor}
    (h : ∀ c d, match? c = some d → c.Reaches d)
    (lifts : ∀ c, match? (F.lift c) = (match? c).map F.lift) :
    Follows F never (accept match?) (accept match?) := by
  intro limits s t aligned
  simp only [FollowsAt, Both, accept, ensures_bind, ensures_cursor, aligned.cursor, lifts]
  cases found : match? s.cursor with
  | none => exact .inl ⟨rfl, aligned⟩
  | some d => exact .inl ⟨rfl, aligned.move (h _ _ found) rfl⟩

theorem eatChar_follows {c : Char} (other : c ≠ '\n') :
    Follows F never (eatChar c) (eatChar c) := by
  refine accept_follows (fun _ _ => Cursor.reaches_of_consume?) ?_
  intro d
  simp only [Cursor.consume?, Frame.peek_lift other]
  split
  · next found =>
    have some : d.rest ≠ [] := fun none => by rw [Cursor.peek, none] at found; cases found
    rw [Option.map_some, Frame.lift_advance some]
  · rfl

theorem eatLiteral_follows {literal : String} (newline : '\n' ∉ literal.toList) :
    Follows F never (eatLiteral literal) (eatLiteral literal) := by
  refine accept_follows (fun _ _ => Cursor.reaches_of_consumeLiteral?) ?_
  intro d
  simp only [Cursor.consumeLiteral?, Frame.checkLiteral_lift newline]
  split
  · next found =>
    have fits : literal.length ≤ d.rest.length := by
      rw [← String.length_toList]
      exact (List.isPrefixOf_iff_prefix.1 found).length_le
    rw [Option.map_some, Frame.lift_advanceBy fits]
  · rfl

theorem eatWord_follows {word : String} (h : word.toList.all isWordChar = true) :
    Follows F never (eatWord word) (eatWord word) := by
  have newline : '\n' ∉ word.toList := fun mem => by cases List.all_eq_true.1 h _ mem
  refine accept_follows (fun _ _ => Cursor.reaches_of_consumeWord?) ?_
  intro d
  simp only [Cursor.consumeWord?, Frame.checkWord_lift h, Cursor.consumeLiteral?,
    Frame.checkLiteral_lift newline]
  split
  · split
    · next found =>
      have fits : word.length ≤ d.rest.length := by
        rw [← String.length_toList]
        exact (List.isPrefixOf_iff_prefix.1 found).length_le
      rw [Option.map_some, Frame.lift_advanceBy fits]
    · rfl
  · rfl

theorem Follows.found {p q : Parse Bool} (h : Follows F never p q) :
    Follows F never (found p) (found q) := by
  intro limits s t aligned
  refine (h limits s t aligned).then ?_
  intro ok s' t' aligned'
  cases ok with
  | false => exact .pure aligned' none
  | true => exact .pure aligned' (some ())

/-- At the seam neither reading finds anything, and they complain as often. -/
def IdleAt {α : Type} (limits : Limits) (s t : ParseState) (p q : Parse (Option α)) : Prop :=
  Both limits s t p q fun a s' b t' => a = none ∧ b = none ∧
    t'.errors.length = s'.errors.length ∧ t'.nestingReported = s'.nestingReported

theorem foundOrBack_grows {α : Type} (start : Cursor) (r : Option α) :
    Grows
      (match r with
      | some a => return some a
      | none => do
        moveTo start
        return none) := by
  intro limits s
  cases r with
  | none => exact .refl
  | some a => exact .refl

theorem FollowsAt.afterBlankInStep [Lasting E] {p q : Parse (Option α)} (aligned : Aligned F s t)
    (h : FollowsAt F E limits { s with cursor := s.cursor.skipBlank }
      { t with cursor := t.cursor.skipBlank } p q) :
    FollowsAt F E limits s t (afterBlank p) (afterBlank q) := by
  refine h.bind ?_ (foundOrBack_grows s.cursor) (foundOrBack_grows t.cursor)
  intro r s' t' aligned'
  cases r with
  | none =>
    exact .inl ⟨rfl, aligned.reached, aligned.cursor, aligned'.count, aligned'.errors, aligned'.nesting⟩
  | some a => exact .pure aligned' (some a)

theorem FollowsAt.afterBlankAtSeam {p q : Parse (Option α)} (aligned : Aligned F s t)
    (seam : Seam F { s with cursor := s.cursor.skipBlank } { t with cursor := t.cursor.skipBlank })
    (idle : IdleAt limits { s with cursor := s.cursor.skipBlank }
      { t with cursor := t.cursor.skipBlank } p q) :
    FollowsAt F E limits s t (afterBlank p) (afterBlank q) := by
  rw [Parse.afterBlank, Parse.afterBlank, followsAt_cursor, followsAt_skipBlank]
  refine Both.bind idle ?_
  rintro _ s' _ t' ⟨rfl, rfl, count, nesting⟩
  refine .inl ⟨rfl, aligned.reached, aligned.cursor, count, ?_, nesting⟩
  exact fun nothing => absurd (nothing.symm.trans seam.behind) (List.cons_ne_nil _ _).symm

/-- At the seam neither reading finds what `p` reads. -/
def Idle {α : Type} (F : Frame) (p : Parse (Option α)) : Prop :=
  ∀ limits s t, Seam F s t → IdleAt limits s t p p

/-- **What is read behind blanks stays in step**, if nothing is found at the seam. -/
theorem Follows.afterBlank [Lasting E] {p : Parse (Option α)} (h : Follows F E p p) (idle : Idle F p) :
    Follows F E (afterBlank p) (afterBlank p) := by
  intro limits s t aligned
  rcases aligned.skipBlank with ⟨inStep, -⟩ | seam
  · exact .afterBlankInStep aligned (h limits _ _ inStep)
  · exact .afterBlankAtSeam aligned seam (idle limits _ _ seam)

/-- From `s`, `p` finds nothing and changes nothing. -/
def Declines {α : Type} (limits : Limits) (s : ParseState) (p : Parse (Option α)) : Prop :=
  Ensures limits s p fun r t => r = none ∧ t = s

theorem Declines.idleAt {α : Type} {p q : Parse (Option α)} (seam : Seam F s t)
    (h : Declines limits s p) (h' : Declines limits t q) : IdleAt limits s t p q := by
  obtain ⟨nothing, same⟩ := h
  obtain ⟨nothing', same'⟩ := h'
  refine ⟨nothing, nothing', ?_⟩
  rw [same, same']
  exact ⟨seam.count, seam.nesting⟩

theorem eatChar_nothing {c : Char} (h : s.cursor.peek ≠ some c) :
    Declines limits s (found (eatChar c)) := by
  simp only [Declines, found, eatChar, accept, ensures_bind, ensures_cursor, Cursor.consume?, if_neg h]
  exact ⟨rfl, rfl⟩

theorem eatWord_nothing {word : String} (h : s.cursor.checkWord word = false) :
    Declines limits s (found (eatWord word)) := by
  simp only [Declines, found, eatWord, accept, ensures_bind, ensures_cursor, Cursor.consumeWord?, h,
    Bool.false_eq_true, if_false]
  exact ⟨rfl, rfl⟩

end Parse

namespace Seam

variable {F : Frame} {s t : ParseState}

theorem peek_left (h : Seam F s t) : s.cursor.peek = none := by
  rw [Cursor.peek, h.atEnd]
  rfl

theorem more (h : Seam F s t) : F.behind ≠ [] := by
  rw [h.behind]
  exact List.cons_ne_nil _ _

theorem blank_left (h : Seam F s t) : s.cursor.skipBlank.rest = [] := by
  rw [Cursor.skipBlank, Cursor.rest_advanceBy, h.atEnd, List.drop_nil]

theorem any_peek_right (h : Seam F s t) : t.cursor.peek.any isIdentStart = true := by
  have rule := h.rule
  rw [startsRule, Bool.and_eq_true] at rule
  exact rule.1

/-- No character but one that a name may start with comes next. -/
theorem peek_right (h : Seam F s t) {c : Char} (other : isIdentStart c = false) :
    t.cursor.peek ≠ some c := by
  intro next
  have start := h.any_peek_right
  rw [next, Option.any_some, other] at start
  cases start

theorem run_right (h : Seam F s t) : t.cursor.run isWordChar = F.word := by
  rw [Frame.word, h.behind]
  rfl

theorem checkWord_left (h : Seam F s t) {word : String} (hw : word.toList.all isWordChar = true)
    (ne : word.toList ≠ []) : s.cursor.checkWord word = false := by
  rw [← Bool.not_eq_true, Cursor.checkWord_iff hw, h.atEnd]
  exact ne.symm

theorem checkWord_right (h : Seam F s t) {word : String} (hw : word.toList.all isWordChar = true)
    (other : F.word ≠ word.toList) : t.cursor.checkWord word = false := by
  rw [← Bool.not_eq_true, Cursor.checkWord_iff hw]
  exact fun same => other (h.run_right.symm.trans same)

theorem atKeyword_left (h : Seam F s t) {word : String} (hw : word.toList.all isWordChar = true)
    (ne : word.toList ≠ []) : s.cursor.atKeyword word = false := by
  rw [Cursor.atKeyword, h.checkWord_left hw ne, Bool.false_and]

theorem atKeyword_right (h : Seam F s t) (word : String) : t.cursor.atKeyword word = false := by
  rw [Cursor.atKeyword, Cursor.atRuleStart, h.rule, Bool.not_true, Bool.and_false]

end Seam

namespace Parse

variable {α β : Type} [Shifts α] [Shifts β] {F : Frame} {E : Parting} {limits : Limits}
  {s t : ParseState}

theorem FollowsAt.isSome {p q : Parse (Option α)} (h : FollowsAt F never limits s t p q) :
    FollowsAt F never limits s t (return (← p).isSome) (return (← q).isSome) := by
  refine h.then ?_
  intro r s' t' aligned'
  cases r with
  | none => exact .pure aligned' false
  | some a => exact .pure aligned' true

theorem eatCharAfterBlank_follows {c : Char} (newline : c ≠ '\n') (other : isIdentStart c = false) :
    Follows F never (eatCharAfterBlank c) (eatCharAfterBlank c) := by
  refine fun limits s t aligned => ((eatChar_follows newline).found.afterBlank ?_ limits s t aligned).isSome
  intro limits s t seam
  refine Declines.idleAt seam (eatChar_nothing ?_) (eatChar_nothing (seam.peek_right other))
  rw [seam.peek_left]
  exact fun h => by cases h

theorem eatWordAfterBlank_follows {word : String} (h : word.toList.all isWordChar = true)
    (ne : word.toList ≠ []) (other : F.word ≠ word.toList) :
    Follows F never (eatWordAfterBlank word) (eatWordAfterBlank word) := by
  refine fun limits s t aligned => ((eatWord_follows h).found.afterBlank ?_ limits s t aligned).isSome
  intro limits s t seam
  exact Declines.idleAt seam (eatWord_nothing (seam.checkWord_left h ne))
    (eatWord_nothing (seam.checkWord_right h other))

/-! ### Repetition -/

/-- Where `p` finds something, it reads something. -/
def Consumes {α : Type} (p : Parse (Option α)) : Prop :=
  ∀ limits s, Ensures limits s p fun r t =>
    r.isSome = true → t.cursor.rest.length < s.cursor.rest.length

/-- Readings that have parted may be repeated any number of times. -/
theorem Grows.manyFuel {α : Type} {step : Parse (Option α)} (h : Grows step) (fuel : Nat) :
    Grows (manyFuel step fuel) := by
  intro limits s
  induction fuel generalizing s with
  | zero => exact .refl
  | succ fuel ih =>
    simp only [Parse.manyFuel, ensures_bind]
    refine (h limits s).mono ?_
    rintro (_ | a) t grows
    · exact grows
    · exact (ih t).bind fun _ _ grows' => grows.trans grows'

/-- What a round of a repetition leads to. -/
theorem Grows.furtherRounds {α : Type} {step : Parse (Option α)} (h : Grows step) (fuel : Nat)
    (r : Option α) : Grows
      (match r with
      | none => return []
      | some item => return item :: (← Parse.manyFuel step fuel)) := by
  intro limits s
  cases r with
  | none => exact .refl
  | some item => exact h.manyFuel fuel limits s

theorem Grows.many {α : Type} {step : Parse (Option α)} (h : Grows step) : Grows (many step) :=
  fun limits s => h.manyFuel _ limits s

theorem Declines.manyFuel {α : Type} {step : Parse (Option α)} (h : Declines limits s step) (fuel : Nat) :
    Ensures limits s (manyFuel step fuel) fun items t => items = [] ∧ t = s := by
  cases fuel with
  | zero => exact ⟨rfl, rfl⟩
  | succ fuel =>
    refine Ensures.bind h ?_
    rintro _ _ ⟨rfl, rfl⟩
    exact ⟨rfl, rfl⟩

/-- **A repetition stays in step**, whatever relation between the states its rounds keep, until the readings
part or the first one is done behind an item that satisfies `last`. The fuel of the first reading lasts,
since every round reads something, and the second reading has no less. -/
theorem Both.manyFuel [Lasting E] {R : ParseState → ParseState → Prop} {k : Nat}
    {step : Parse (Option α)} {last : α → ParseState → Prop}
    (h : ∀ s t, R s t → Both limits s t step step fun a s' b t' =>
      Matched R k a s' b t' ∨ E limits s' t' ∨ ∃ item ∈ a, last item s')
    (done : ∀ item s, last item s → Declines limits s step)
    (consumes : Consumes step) (grows : Grows step) {n m : Nat} (enough : s.cursor.rest.length < n)
    (more : n ≤ m) (related : R s t) :
    Both limits s t (manyFuel step n) (manyFuel step m) fun a s' b t' =>
      Matched R k a s' b t' ∨ E limits s' t' ∨ ∃ item ∈ a.getLast?, last item s' := by
  induction n generalizing s t m with
  | zero => omega
  | succ n ih =>
    obtain ⟨m, rfl⟩ : ∃ k, m = k + 1 := ⟨m - 1, by omega⟩
    have round : Both limits s t step step fun a s' b t' =>
        (Matched R k a s' b t' ∨ E limits s' t' ∨ ∃ item ∈ a, last item s') ∧
          (a.isSome = true → s'.cursor.rest.length < s.cursor.rest.length) :=
      ⟨h s t related, consumes limits s⟩
    refine Both.bind round ?_
    rintro a s' b t' ⟨⟨rfl, related'⟩ | parted | ⟨item, rfl, ends⟩, shorter⟩
    · cases a with
      | none => exact .inl ⟨rfl, related'⟩
      | some item =>
        have := shorter rfl
        refine Both.bind (ih (by omega) (by omega) related') ?_
        rintro items s'' _ t'' (⟨rfl, related''⟩ | parted | ⟨final, isLast, ends⟩)
        · exact .inl ⟨rfl, related''⟩
        · exact .inr (.inl parted)
        · have isLast' : final ∈ (item :: items).getLast? := by
            rw [List.getLast?_cons, Option.mem_def.1 isLast]
            rfl
          exact .inr (.inr ⟨final, isLast', ends⟩)
    · exact .inr (.inl (Lasting.keeps parted (grows.furtherRounds n a limits s')
        (grows.furtherRounds m b limits t')))
    · refine Ensures.bind ((done item s' ends).manyFuel n) ?_
      rintro _ _ ⟨rfl, rfl⟩
      exact .inr (.inr ⟨item, rfl, ends⟩)

theorem Follows.many [Lasting E] {step : Parse (Option α)} (h : Follows F E step step)
    (consumes : Consumes step) (grows : Grows step) : Follows F E (many step) (many step) := by
  intro limits s t aligned
  have rounds (s t : ParseState) (aligned : Aligned F s t) : Both limits s t step step fun a s' b t' =>
      Matched (Aligned F) F.lines a s' b t' ∨ E limits s' t' ∨ ∃ item ∈ a, (fun _ _ => False) item s' :=
    (h limits s t aligned).mono fun _ _ _ _ either => either.imp_right .inl
  rw [Parse.many, followsAt_cursor]
  refine (Both.manyFuel rounds (fun _ _ never => never.elim) consumes grows (Nat.lt_succ_self _) ?_
    aligned).mono ?_
  · rw [aligned.cursor, Frame.rest_lift, List.length_append]
    omega
  · rintro a s' b t' (matched | parted | ⟨_, _, never⟩)
    · exact .inl matched
    · exact .inr parted
    · exact never.elim

/-! ### Leaves -/

theorem identifier_follows : Follows F never identifier identifier := by
  intro limits s t aligned
  rw [identifier, followsAt_cursor, aligned.cursor, Frame.any_peek_lift rfl, Frame.run_lift rfl]
  split
  · refine (takeLeaf_follows _ (List.takeWhile_prefix _).length_le aligned).then ?_
    intro leaf s' t' aligned'
    exact .pure aligned' (some leaf)
  · exact .pure aligned none

theorem length_stringTail_le (cs : List Char) : (stringTail cs).1 ≤ cs.length := by
  fun_induction stringTail cs with
  | case1 => exact Nat.le_refl 0
  | case2 => exact Nat.le_refl 1
  | case3 cs => simp
  | case4 c cs _ n closed rest ih =>
    rw [rest] at ih
    simpa using ih
  | case5 cs => simp
  | case6 => simp
  | case7 c cs _ _ _ _ n closed rest ih =>
    rw [rest] at ih
    simpa using ih

theorem string_follows : Follows F never string string := by
  intro limits s t aligned
  rw [string, followsAt_cursor]
  have quote : t.cursor.peek = some '"' ↔ s.cursor.peek = some '"' := by
    rw [aligned.cursor, Frame.peek_lift (by decide)]
  by_cases hquote : s.cursor.peek = some '"'
  · obtain ⟨rest, hrest⟩ : ∃ rest, s.cursor.rest = '"' :: rest := List.head?_eq_some_iff.1 hquote
    have tail : stringTail t.cursor.rest.tail = stringTail s.cursor.rest.tail := by
      rw [aligned.cursor, Frame.rest_lift, hrest]
      exact Frame.stringTail_append_behind rest
    have fits : (stringTail s.cursor.rest.tail).1 + 1 ≤ s.cursor.rest.length := by
      rw [hrest]
      exact Nat.succ_le_succ (length_stringTail_le rest)
    rw [if_pos hquote, if_pos (quote.2 hquote), tail]
    dsimp only
    rw [followsAt_move]
    have moved := aligned.advanceBy fits
    have leaf (s' t' : ParseState) (aligned' : Aligned F s' t') : FollowsAt F never limits s' t'
        (return some (← textNodeFrom .string s.cursor []))
        (return some (← textNodeFrom .string t.cursor [])) := by
      rw [aligned.cursor]
      refine (textNodeFrom_follows .string aligned.reached [] limits s' t' aligned').then ?_
      intro node s'' t'' aligned''
      exact .pure aligned'' (some node)
    split
    · have complained := reportFrom_follows .stringUnterminated aligned.reached limits _ _ moved
      rw [← aligned.cursor] at complained
      exact leaf _ _ complained.matched.states
    · exact leaf _ _ moved
  · rw [if_neg hquote, if_neg fun h => hquote (quote.1 h)]
    exact .pure aligned none

theorem number_follows : Follows F never number number := by
  intro limits s t aligned
  have digits : t.cursor.run Char.isDigit = s.cursor.run Char.isDigit := by
    rw [aligned.cursor, Frame.run_lift rfl]
  rw [number, followsAt_cursor, digits]
  dsimp only
  split
  · exact .pure aligned none
  · have moved := aligned.skipWhile (p := Char.isDigit) rfl
    have span := Frame.spanFrom_lift aligned.reached moved.reached
    rw [← moved.cursor, ← aligned.cursor] at span
    simp only [Cursor.skipWhile, digits] at moved span
    have node (value : Nat) (span' : Span) :
        some (Node.number value (span'.down F.lines)) = shift F.lines (some (Node.number value span')) := by
      show _ = some (Node.down F.lines (.number value span'))
      rw [Node.number, Node.number, Node.down_mk]
      rfl
    split
    · exact .inl ⟨(congrArg (some ∘ Node.number _) span).trans (node _ _), moved⟩
    · refine .inl ⟨(congrArg (some ∘ Node.number _) span).trans (node _ _), ?_⟩
      have complained := reportFrom_follows (.numberTooLarge (String.ofList (s.cursor.run Char.isDigit)))
        aligned.reached limits _ _ moved
      rw [← aligned.cursor] at complained
      exact complained.matched.states

theorem Carries.grows {α : Type} [HasNodes α] {P Q : List Char → ParseState → Prop} {p : Parse α}
    (h : Carries P Q p) : Grows p :=
  fun limits s => (h [] limits s).mono fun _ _ kept => kept.grows

theorem Tries.grows {α : Type} [HasNodes α] {P Q : List Char → ParseState → Prop}
    {p : Parse (Option α)} (h : Tries P Q p) : Grows p := by
  intro limits s
  refine (h [] limits s).mono ?_
  rintro (_ | a) t kept
  · exact kept.2.grows
  · exact kept.grows

theorem Reads.moves {α : Type} [HasNodes α] {kinds : List Kind → Prop} {p : Parse α}
    (h : Reads kinds p) : Moves p :=
  fun limits s => (h limits s).mono fun _ _ found => found.read.reaches

end Parse

end PatternRules

import PatternRules.Proofs.Impartial
import PatternRules.Proofs.SameLine
import PatternRules.Proofs.Twin.Document

/-!
Two texts that read alike. A `Likeness` says which places in the two correspond: from there both go on with the
same line, and where they come to its end, to blanks or to the end of the text, they come to corresponding
places again, except behind a complaint that `tells` of the difference. The texts of the nodes may differ by
a `view`, as long as it gives those of the first text.

`AgreeAt` compares two readings from corresponding places by what they come to: the results and complaints are the
same, or the first reading has a complaint that tells. So nothing has to be known about the second text where the
two part.

* `AgreeAt.bind`: two readings in a row;
* `telling_agrees`: behind a complaint that tells, the first reading only has to go on;
* `afterBlank_agrees`, `sought_agrees`: behind blanks the texts may both end, at places that do not correspond;
* `many_agrees`: repetitions, though the second text may be longer.
-/

namespace PatternRules

/-! ## Texts seen through a function -/

/-- The value with its text seen through a function. -/
def Value.mapText (f : String → String) : Value → Value
  | text s => .text (f s)
  | number n => .number n

namespace Node

mutual

/-- The tree with all texts seen through a function. -/
def mapText (f : String → String) : Node → Node
  | ⟨kind, value, children, span⟩ => ⟨kind, value.map (Value.mapText f), mapTextOf f children, span⟩

def mapTextOf (f : String → String) : List Node → List Node
  | [] => []
  | node :: rest => mapText f node :: mapTextOf f rest

end

theorem mapTextOf_eq (f : String → String) (ns : List Node) : mapTextOf f ns = ns.map (mapText f) := by
  induction ns with
  | nil => rfl
  | cons n ns ih => rw [mapTextOf, ih, List.map_cons]

theorem mapText_mk (f : String → String) (kind : Kind) (value : Option Value) (children : List Node)
    (span : Span) : mapText f ⟨kind, value, children, span⟩ =
      ⟨kind, value.map (Value.mapText f), children.map (mapText f), span⟩ := by
  rw [mapText, mapTextOf_eq]

end Node

/-- Results with texts in them. -/
class HasTexts (α : Type) where
  mapTexts : (String → String) → α → α

export HasTexts (mapTexts)

namespace HasTexts

variable {α β : Type}

instance : HasTexts Unit := ⟨fun _ a => a⟩

instance : HasTexts Bool := ⟨fun _ a => a⟩

instance : HasTexts Node := ⟨Node.mapText⟩

instance [HasTexts α] : HasTexts (Option α) := ⟨fun f => Option.map (mapTexts f)⟩

instance [HasTexts α] : HasTexts (List α) := ⟨fun f => List.map (mapTexts f)⟩

instance [HasTexts α] [HasTexts β] : HasTexts (α × β) := ⟨fun f => Prod.map (mapTexts f) (mapTexts f)⟩

end HasTexts

/-! ## Texts that read alike -/

/-- Complaints that are about the next character behind blanks, even where the text ends. -/
def Complaint.isSought : Complaint → Bool
  | argumentMissing | argumentValueMissing | tokensFileMissing | nestingTooDeep _ => true
  | _ => false

/-- Two texts that read alike: at corresponding places (`place`) both go on with the same characters up to
the end of the line, and both come to corresponding places again, or to their ends (`finished`), except
where a complaint about the first text tells that they may differ (`tells`). The texts of nodes are the
same if those of the second text are seen through `view`. -/
structure Likeness where
  view : String → String
  place : Cursor → Cursor → Prop
  finished : Cursor → Cursor → Prop
  tells : SyntaxError → Prop
  position : ∀ {c c'}, place c c' → c'.position = c.position
  sameLine : ∀ {c c'}, place c c' → SameLine c.rest c'.rest
  noReturn : ∀ {c c'}, place c c' → '\r' ∉ c.rest
  length_le : ∀ {c c'}, place c c' → c.rest.length ≤ c'.rest.length
  advance : ∀ {c c' ch rest}, place c c' → c.rest = ch :: rest → inLine ch = true →
    place c.advance c'.advance
  everywhere : ∀ {c c'}, place c c' → ∃ d', place c.advance d'
  spanFrom : ∀ {a a' c c'}, place a a' → place c c' → c'.spanFrom a'.mark = c.spanFrom a.mark
  text : ∀ {a a' c c'}, place a a' → place c c' →
    String.ofList (c.textSince a) = view (String.ofList (c'.textSince a'))
  skipBlank : ∀ {c c'}, place c c' →
    place c.skipBlank c'.skipBlank ∧ (c.skipBlank.rest = [] → c'.skipBlank.rest = []) ∨
      finished c.skipBlank c'.skipBlank
  skipLine : ∀ {c c'}, place c c' → place c.skipLine c'.skipLine ∨ finished c.skipLine c'.skipLine
  atEnd : ∀ {c c'}, finished c c' → c.rest = [] ∧ c'.rest = []
  finished_spanFrom : ∀ {a a' c c'}, place a a' → finished c c' →
    c'.spanFrom a'.mark = c.spanFrom a.mark
  sought : ∀ {c c'} {complaint : Complaint}, finished c c' → complaint.isSought = true →
    tells ⟨complaint.message, c.nextSpan⟩
  lineEnd : ∀ {c c'}, place c c' → Stops inLine c.rest →
    Stops (· != '\n') c'.rest ∨ ∀ complaint : Complaint, tells ⟨complaint.message, c.nextSpan⟩
  string : ∀ {c c' rest rest'}, place c c' → c.rest = '"' :: rest → c'.rest = '"' :: rest' →
    stringTail rest' = stringTail rest ∨ (stringTail rest).2 = false ∧
      tells ⟨Complaint.stringUnterminated.message,
        (c.advanceBy ((stringTail rest).1 + 1)).spanFrom c.mark⟩
  brace : ∀ {c c'}, place c c' →
    place (c.advanceBy (untilBrace c.rest)) (c'.advanceBy (untilBrace c'.rest)) ∨
      tells ⟨Complaint.quantifierNumberMissing.message, c.nextSpan⟩
  brackets : ∀ {c c'} {complaint : Complaint}, place c c' →
    complaint = Complaint.listNameMissing ∨ complaint = Complaint.listUnclosed →
    place (c.advanceBy (untilBrackets c.rest)) (c'.advanceBy (untilBrackets c'.rest)) ∨
      tells ⟨complaint.message, c.nextSpan⟩

theorem Cursor.length_run_le_line (c : Cursor) {p : Char → Bool} (newline : p '\n' = false)
    (carriage : p '\r' = false) : (c.run p).length ≤ (c.run inLine).length :=
  length_takeWhile_le_line (outside newline carriage) c.rest

theorem Cursor.nextSpan_of_stops {c : Cursor} (h : Stops (· != '\n') c.rest) :
    c.nextSpan = ⟨c.line, c.column, 0⟩ := by
  rw [nextSpan, peek]
  cases hrest : c.rest with
  | nil => rfl
  | cons ch rest =>
    rw [hrest, Stops.cons_iff, bne_eq_false_iff_eq] at h
    rw [h]
    rfl

namespace Likeness

variable {L : Likeness} {c c' : Cursor}

/-! ### Looking ahead -/

section

variable (h : L.place c c')
include h

theorem any_peek {p : Char → Bool} (newline : p '\n' = false) (carriage : p '\r' = false) :
    c'.peek.any p = c.peek.any p :=
  (L.sameLine h).any_head (outside newline carriage)

theorem peek_iff {ch : Char} (inside : inLine ch = true) : c'.peek = some ch ↔ c.peek = some ch := by
  have same := any_peek h (p := (· == ch)) (beq_false_of_ne (ne_of_kind inside rfl).symm)
    (beq_false_of_ne (ne_of_kind inside rfl).symm)
  have found (d : Cursor) : d.peek = some ch ↔ d.peek.any (· == ch) = true := by
    cases d.peek <;> simp
  rw [found, found, same]

theorem run_eq {p : Char → Bool} (newline : p '\n' = false) (carriage : p '\r' = false) :
    c'.run p = c.run p :=
  (L.sameLine h).takeWhile_eq (outside newline carriage)

theorem peekWord?_eq : c'.peekWord? = c.peekWord? := by
  rw [Cursor.peekWord?, Cursor.peekWord?, run_eq h rfl rfl]

theorem checkLiteral_eq {literal : String} (all : literal.toList.all inLine = true) :
    c'.checkLiteral literal = c.checkLiteral literal :=
  (L.sameLine h).isPrefixOf_eq all

theorem atRuleStart_eq : c'.atRuleStart = c.atRuleStart := (L.sameLine h).startsRule_eq

theorem checkWord_eq {word : String} (all : word.toList.all isWordChar = true) :
    c'.checkWord word = c.checkWord word := by
  rw [Bool.eq_iff_iff, Cursor.checkWord_iff all, Cursor.checkWord_iff all, ← Cursor.run, ← Cursor.run,
    run_eq h rfl rfl]

theorem atKeyword_eq {word : String} (all : word.toList.all isWordChar = true) :
    c'.atKeyword word = c.atKeyword word := by
  rw [Cursor.atKeyword, Cursor.atKeyword, checkWord_eq h all, atRuleStart_eq h]

/-! ### Going on -/

/-- Inside the line both go on together. -/
theorem advanceBy {n : Nat} (within : n ≤ (c.run inLine).length) :
    L.place (c.advanceBy n) (c'.advanceBy n) := by
  induction n generalizing c c' with
  | zero => exact h
  | succ n ih =>
    cases hrest : c.rest with
    | nil =>
      rw [Cursor.run, hrest] at within
      exact absurd within (Nat.not_succ_le_zero n)
    | cons ch rest =>
      have inside : inLine ch = true := by
        by_contra outside
        rw [Cursor.run, hrest, List.takeWhile_cons_of_neg outside] at within
        exact absurd within (Nat.not_succ_le_zero n)
      rw [Cursor.run, hrest, List.takeWhile_cons_of_pos inside, List.length_cons] at within
      refine ih (L.advance h hrest inside) ?_
      rw [Cursor.run, Cursor.rest_advance, hrest]
      exact Nat.le_of_succ_le_succ within

theorem skipWhile {p : Char → Bool} (newline : p '\n' = false) (carriage : p '\r' = false) :
    L.place (c.skipWhile p) (c'.skipWhile p) := by
  rw [Cursor.skipWhile, Cursor.skipWhile, run_eq h newline carriage]
  exact advanceBy h (c.length_run_le_line newline carriage)

theorem placed_advanceBy (n : Nat) : ∃ d', L.place (c.advanceBy n) d' := by
  induction n generalizing c c' with
  | zero => exact ⟨c', h⟩
  | succ n ih =>
    obtain ⟨d', placed⟩ := L.everywhere h
    exact ih placed

theorem line_eq : c'.line = c.line := congrArg Position.line (L.position h)

theorem column_eq : c'.column = c.column := congrArg Position.column (L.position h)

/-- The first text has no carriage returns, so its lines end in newlines. -/
theorem stops_newline (stop : Stops inLine c.rest) : Stops (· != '\n') c.rest := by
  cases hrest : c.rest with
  | nil => exact .nil
  | cons ch rest =>
    rw [hrest] at stop
    have noReturn : ch ≠ '\r' := fun e => L.noReturn h (by rw [hrest, e]; exact List.mem_cons_self)
    simpa [inLine, noReturn] using stop

/-- The next characters have the same span, unless a complaint about them would tell. -/
theorem nextSpan_eq : c'.nextSpan = c.nextSpan ∨
    ∀ complaint : Complaint, L.tells ⟨complaint.message, c.nextSpan⟩ := by
  by_cases stop : Stops inLine c.rest
  · refine (L.lineEnd h stop).imp_left fun stop' => ?_
    rw [Cursor.nextSpan_of_stops stop', Cursor.nextSpan_of_stops (stops_newline h stop), line_eq h,
      column_eq h]
  · left
    cases hrest : c.rest with
    | nil => exact absurd (by rw [hrest]; exact .nil) stop
    | cons ch rest =>
      have inside : inLine ch = true := by
        rw [hrest, Stops.cons_iff, Bool.not_eq_false] at stop
        exact stop
      have peek : c.peek = some ch := by rw [Cursor.peek, hrest]; rfl
      rw [Cursor.nextSpan, Cursor.nextSpan, (peek_iff h inside).2 peek, peek, line_eq h, column_eq h]

end

end Likeness

/-! ## Readings that agree -/

open Parse

namespace Likeness

variable {α β : Type} [HasTexts α] [HasTexts β]

/-- Both readings come to the same, at corresponding places. -/
structure Matches (L : Likeness) (o o' : Outcome α) : Prop where
  result : o.result = mapTexts L.view o'.result
  place : L.place o.cursor o'.cursor
  nested : o'.nested = o.nested
  complaints : o'.complaints = o.complaints

/-- The first reading has a complaint that tells that the texts may differ. -/
structure Tells (L : Likeness) (o : Outcome α) : Prop where
  result : ∃ b, o.result = mapTexts L.view b
  place : ∃ c', L.place o.cursor c'
  complaint : ∃ e ∈ o.complaints, L.tells e

/-- `p` from `c` comes to the same as `q` from `c'`, unless it has a complaint that tells. -/
def AgreeAt (L : Likeness) (depth : Nat) (nested : Bool) (c c' : Cursor) (p q : Parse α) : Prop :=
  ∃ o, ComesTo depth c nested p o ∧
    (L.Tells o ∨ ∃ o', ComesTo depth c' nested q o' ∧ L.Matches o o')

/-- From all corresponding places `p` comes to the same. -/
def Agrees (L : Likeness) (p : Parse α) : Prop :=
  ∀ depth nested c c', L.place c c' → L.AgreeAt depth nested c c' p p

variable {L : Likeness} {depth : Nat} {nested : Bool} {c c' : Cursor}

namespace AgreeAt

theorem pure (h : L.place c c') (b : α) :
    L.AgreeAt depth nested c c' (Pure.pure (mapTexts L.view b)) (Pure.pure b) :=
  ⟨_, .quiet fun _ _ => ⟨rfl, rfl⟩, .inr ⟨_, .quiet fun _ _ => ⟨rfl, rfl⟩, rfl, h, rfl, rfl⟩⟩

/-- Behind a complaint that tells it is enough that the two readings would agree from there on. -/
theorem then_tells {p : Parse α} {f : α → Parse β} {g : α → Parse β} {o : Outcome α}
    (comes : ComesTo depth c nested p o) (tells : L.Tells o)
    (next : ∀ b d', L.place o.cursor d' → o.result = mapTexts L.view b →
      L.AgreeAt depth o.nested o.cursor d' (f (mapTexts L.view b)) (g b)) :
    ∃ o', ComesTo depth c nested (p >>= f) o' ∧ L.Tells o' := by
  obtain ⟨b, result⟩ := tells.result
  obtain ⟨d', placed⟩ := tells.place
  obtain ⟨o₁, comes₁, either⟩ := next b d' placed result
  rw [← result] at comes₁
  refine ⟨_, comes.bind comes₁, ?_⟩
  obtain ⟨e, he, telling⟩ := tells.complaint
  have complaint : ∃ e ∈ o.complaints ++ o₁.complaints, L.tells e :=
    ⟨e, List.mem_append_left _ he, telling⟩
  rcases either with tells₁ | ⟨o₁', -, matched⟩
  · exact ⟨tells₁.result, tells₁.place, complaint⟩
  · exact ⟨⟨_, matched.result⟩, ⟨_, matched.place⟩, complaint⟩

/-- **Two readings in a row.** -/
theorem bind' {p q : Parse α} {f g : α → Parse β} {P : α → Cursor → Prop}
    (h : L.AgreeAt depth nested c c' p q) (known : ∀ o, ComesTo depth c nested p o → P o.result o.cursor)
    (next : ∀ nested d d' b, L.place d d' → P (mapTexts L.view b) d →
      L.AgreeAt depth nested d d' (f (mapTexts L.view b)) (g b)) :
    L.AgreeAt depth nested c c' (p >>= f) (q >>= g) := by
  obtain ⟨o, comes, tells | ⟨o', comes', matched⟩⟩ := h
  · obtain ⟨o₁, comes₁, tells₁⟩ := then_tells (f := f) (g := g) comes tells fun b d' placed result =>
      next o.nested o.cursor d' b placed (result ▸ known o comes)
    exact ⟨o₁, comes₁, .inl tells₁⟩
  · obtain ⟨o₁, comes₁, either⟩ := next o.nested o.cursor o'.cursor o'.result matched.place
      (matched.result ▸ known o comes)
    rw [← matched.result] at comes₁
    refine ⟨_, comes.bind comes₁, ?_⟩
    rcases either with tells₁ | ⟨o₁', comes₁', matched₁⟩
    · left
      obtain ⟨e, he, telling⟩ := tells₁.complaint
      exact ⟨tells₁.result, tells₁.place, e, List.mem_append_right _ he, telling⟩
    · right
      rw [← matched.nested] at comes₁'
      refine ⟨_, comes'.bind comes₁', matched₁.result, matched₁.place, matched₁.nested, ?_⟩
      rw [matched.complaints, matched₁.complaints]

theorem bind {p q : Parse α} {f g : α → Parse β} (h : L.AgreeAt depth nested c c' p q)
    (next : ∀ nested d d' b, L.place d d' →
      L.AgreeAt depth nested d d' (f (mapTexts L.view b)) (g b)) :
    L.AgreeAt depth nested c c' (p >>= f) (q >>= g) :=
  bind' (P := fun _ _ => True) h (fun _ _ => trivial) fun nested d d' b placed _ =>
    next nested d d' b placed

end AgreeAt

end Likeness

namespace Parse

variable {α β : Type} [HasTexts α] [HasTexts β] {L : Likeness} {depth : Nat} {nested : Bool}
  {c c' : Cursor}

/-! ### Basic steps -/

theorem agreeAt_cursor (f g : Cursor → Parse α) :
    L.AgreeAt depth nested c c' (cursor >>= f) (cursor >>= g) ↔
      L.AgreeAt depth nested c c' (f c) (g c') :=
  Iff.rfl

theorem agreeAt_peek (f g : Option Char → Parse α) :
    L.AgreeAt depth nested c c' (peek >>= f) (peek >>= g) ↔
      L.AgreeAt depth nested c c' (f c.peek) (g c'.peek) :=
  Iff.rfl

theorem agreeAt_move (m m' : Cursor → Cursor) (f g : Unit → Parse α) :
    L.AgreeAt depth nested c c' (move m >>= f) (move m' >>= g) ↔
      L.AgreeAt depth nested (m c) (m' c') (f ()) (g ()) :=
  Iff.rfl

theorem agreeAt_skipInlineBlank (f g : Unit → Parse α) :
    L.AgreeAt depth nested c c' (skipInlineBlank >>= f) (skipInlineBlank >>= g) ↔
      L.AgreeAt depth nested c.skipInlineBlank c'.skipInlineBlank (f ()) (g ()) :=
  Iff.rfl

theorem agreeAt_moveTo (d d' : Cursor) (f g : Unit → Parse α) :
    L.AgreeAt depth nested c c' (moveTo d >>= f) (moveTo d' >>= g) ↔
      L.AgreeAt depth nested d d' (f ()) (g ()) :=
  Iff.rfl

theorem agreeAt_spanFrom (start start' : Cursor) (f g : Span → Parse α) :
    L.AgreeAt depth nested c c' (spanFrom start >>= f) (spanFrom start' >>= g) ↔
      L.AgreeAt depth nested c c' (f (c.spanFrom start.mark)) (g (c'.spanFrom start'.mark)) :=
  Iff.rfl

theorem comesTo_reportHere (complaint : Complaint) : ComesTo depth c nested (reportHere complaint)
    ⟨(), c, nested, [⟨complaint.message, c.nextSpan⟩]⟩ :=
  .report complaint c.nextSpan

theorem report_agreeAt (h : L.place c c') (complaint : Complaint) (span : Span) :
    L.AgreeAt depth nested c c' (report complaint span) (report complaint span) :=
  ⟨_, .report complaint span, .inr ⟨_, .report complaint span, rfl, h, rfl, rfl⟩⟩

/-- Behind a complaint that tells, it is enough that reading goes on somehow. -/
theorem telling_agrees {complaint : Complaint} {span : Span} {f : Unit → Parse α} {g : Parse α}
    {d' : Cursor} (telling : L.tells ⟨complaint.message, span⟩) (h : L.AgreeAt depth nested c d' (f ()) g)
    (c' : Cursor) (q : Parse α) : L.AgreeAt depth nested c c' (report complaint span >>= f) q := by
  obtain ⟨o, comes, either⟩ := h
  have complaint : ∃ e ∈ [⟨complaint.message, span⟩] ++ o.complaints, L.tells e :=
    ⟨_, List.mem_cons_self, telling⟩
  refine ⟨_, (ComesTo.report _ span).bind comes, .inl ?_⟩
  rcases either with tells | ⟨o', -, matched⟩
  · exact ⟨tells.result, tells.place, complaint⟩
  · exact ⟨⟨_, matched.result⟩, ⟨_, matched.place⟩, complaint⟩

/-- Both have the same complaint and go on. -/
theorem report_then_agrees {f g : Unit → Parse α} (next : L.AgreeAt depth nested c c' (f ()) (g ()))
    (complaint : Complaint) (span : Span) :
    L.AgreeAt depth nested c c' (report complaint span >>= f) (report complaint span >>= g) := by
  obtain ⟨o, comes, either⟩ := next
  refine ⟨_, (ComesTo.report _ span).bind comes, ?_⟩
  rcases either with tells | ⟨o', comes', matched⟩
  · obtain ⟨e, he, telling⟩ := tells.complaint
    exact .inl ⟨tells.result, tells.place, e, List.mem_append_right _ he, telling⟩
  · right
    refine ⟨_, (ComesTo.report _ span).bind comes', matched.result, matched.place, matched.nested, ?_⟩
    rw [matched.complaints]

theorem reportHere_then_agrees (h : L.place c c') {f g : Unit → Parse α}
    (next : L.AgreeAt depth nested c c' (f ()) (g ())) (complaint : Complaint) :
    L.AgreeAt depth nested c c' (reportHere complaint >>= f) (reportHere complaint >>= g) := by
  rcases L.nextSpan_eq h with same | tells
  · simp only [reportHere, bind_assoc]
    rw [agreeAt_cursor, same]
    exact report_then_agrees next complaint _
  · exact telling_agrees (tells complaint) next c' _

theorem reportHere_agrees (complaint : Complaint) : L.Agrees (reportHere complaint) := by
  intro depth nested c c' h
  rw [← bind_pure (reportHere complaint)]
  exact reportHere_then_agrees h (.pure h ()) complaint

/-- What may have to be complained about. -/
theorem complaining_agrees (h : L.place c c') (b : Prop) [Decidable b] {complain : Parse Unit}
    (said : L.Agrees complain) {f g : Unit → Parse α}
    (next : ∀ nested d d', L.place d d' → L.AgreeAt depth nested d d' (f ()) (g ())) :
    L.AgreeAt depth nested c c' (if b then complain >>= f else f ()) (if b then complain >>= g else g ()) := by
  split
  · exact (said depth nested c c' h).bind fun nested d d' _ placed => next nested d d' placed
  · exact next nested c c' h

/-- What is complained about and left behind. -/
theorem leaving_agrees (h : L.place c c') {complaint : Complaint} {far : List Char → Nat}
    (alike : L.place (c.advanceBy (far c.rest)) (c'.advanceBy (far c'.rest)) ∨
      L.tells ⟨complaint.message, c.nextSpan⟩) {p q : Parse α}
    (next : ∀ d d', L.place d d' → L.AgreeAt depth nested d d' p q) :
    L.AgreeAt depth nested c c' (do reportHere complaint; move fun c => c.advanceBy (far c.rest); p)
      (do reportHere complaint; move fun c => c.advanceBy (far c.rest); q) := by
  rcases alike with placed | telling
  · exact reportHere_then_agrees h ((agreeAt_move _ _ _ _).2 (next _ _ placed)) complaint
  · obtain ⟨d', placed⟩ := L.placed_advanceBy h (far c.rest)
    have further : L.AgreeAt depth nested c c' (do move fun c => c.advanceBy (far c.rest); p)
        (do move fun _ => d'; q) := (agreeAt_move _ _ _ _).2 (next _ _ placed)
    exact telling_agrees (f := fun _ => do move fun c => c.advanceBy (far c.rest); p) telling further c' _

/-- What has to be found, and what is read behind it. -/
theorem orReport_then_agrees {p q : Parse (Option α)} (h : L.AgreeAt depth nested c c' p q)
    {complaint : Complaint} {f g : Option α → Parse β}
    (missing : ∀ nested d d', L.place d d' → L.AgreeAt depth nested d d'
      (do reportHere complaint; f none) (do reportHere complaint; g none))
    (found : ∀ nested d d' b, L.place d d' →
      L.AgreeAt depth nested d d' (f (some (mapTexts L.view b))) (g (some b))) :
    L.AgreeAt depth nested c c' (orReport complaint p >>= f) (orReport complaint q >>= g) := by
  rw [orReport, orReport, bind_assoc, bind_assoc]
  refine h.bind ?_
  rintro nested d d' (_ | b) placed
  · exact missing nested d d' placed
  · exact found nested d d' b placed

theorem orReport_agrees {p q : Parse (Option α)} (h : L.AgreeAt depth nested c c' p q)
    (complaint : Complaint) :
    L.AgreeAt depth nested c c' (orReport complaint p) (orReport complaint q) := by
  have reported : L.AgreeAt depth nested c c' (orReport complaint p >>= pure)
      (orReport complaint q >>= pure) :=
    orReport_then_agrees h (fun _ _ _ placed => reportHere_then_agrees placed (.pure placed none) _)
      fun _ _ _ b placed => .pure placed (some b)
  simpa only [bind_pure] using reported

theorem comesTo_reportHere_then {α : Type} (complaint : Complaint) (a : α) :
    ComesTo depth c nested (do reportHere complaint; return a)
      ⟨a, c, nested, [⟨complaint.message, c.nextSpan⟩]⟩ := by
  intro cap errors
  refine (comesTo_reportHere complaint cap errors).bind ?_
  rintro _ _ ⟨-, rfl⟩
  exact ⟨rfl, rfl⟩

theorem comesTo_orReport_none {α : Type} {p : Parse (Option α)} {d : Cursor} {nested' : Bool}
    {es : List SyntaxError} (h : ComesTo depth c nested p ⟨none, d, nested', es⟩) (complaint : Complaint) :
    ComesTo depth c nested (orReport complaint p)
      ⟨none, d, nested', es ++ [⟨complaint.message, d.nextSpan⟩]⟩ := by
  intro cap errors
  rw [orReport]
  refine (h cap errors).bind ?_
  rintro _ _ ⟨rfl, rfl⟩
  refine (comesTo_reportHere complaint cap _).bind ?_
  rintro _ _ ⟨-, rfl⟩
  refine ⟨rfl, ?_⟩
  rw [Outcome.state, Outcome.state, take_in_two]
  rfl

/-! ### Matching -/

theorem accept_agrees {match? : Cursor → Option Cursor} (h : L.place c c')
    (agree : (match? c = none ∧ match? c' = none) ∨
      ∃ d d', match? c = some d ∧ match? c' = some d' ∧ L.place d d') :
    L.AgreeAt depth nested c c' (accept match?) (accept match?) := by
  rw [accept, agreeAt_cursor]
  rcases agree with ⟨none, none'⟩ | ⟨d, d', found, found', placed⟩
  · rw [none, none']
    exact .pure h false
  · rw [found, found']
    exact (agreeAt_moveTo d d' _ _).2 (.pure placed true)

theorem eatChar_agrees {ch : Char} (inside : inLine ch = true) : L.Agrees (eatChar ch) := by
  intro depth nested c c' h
  refine accept_agrees h ?_
  simp only [Cursor.consume?, L.peek_iff h inside]
  split
  · next here =>
    obtain ⟨rest, hrest⟩ := List.head?_eq_some_iff.1 here
    exact .inr ⟨_, _, rfl, rfl, L.advance h hrest inside⟩
  · exact .inl ⟨rfl, rfl⟩

theorem place_literal (h : L.place c c') {literal : String} (all : literal.toList.all inLine = true)
    (here : c.checkLiteral literal = true) :
    L.place (c.advanceBy literal.length) (c'.advanceBy literal.length) := by
  rw [← String.length_toList]
  exact L.advanceBy h (length_le_of_isPrefixOf all here)

theorem eatLiteral_agrees {literal : String} (all : literal.toList.all inLine = true) :
    L.Agrees (eatLiteral literal) := by
  intro depth nested c c' h
  refine accept_agrees h ?_
  simp only [Cursor.consumeLiteral?, L.checkLiteral_eq h all]
  split
  · next here => exact .inr ⟨_, _, rfl, rfl, place_literal h all here⟩
  · exact .inl ⟨rfl, rfl⟩

theorem eatWord_agrees {word : String} (all : word.toList.all isWordChar = true) :
    L.Agrees (eatWord word) := by
  have inside : word.toList.all inLine = true :=
    List.all_eq_true.2 fun c hc => inLine_of_isWordChar (List.all_eq_true.1 all c hc)
  intro depth nested c c' h
  refine accept_agrees h ?_
  simp only [Cursor.consumeWord?, Cursor.consumeLiteral?, L.checkWord_eq h all,
    L.checkLiteral_eq h inside]
  split
  · split
    · next here => exact .inr ⟨_, _, rfl, rfl, place_literal h inside here⟩
    · exact .inl ⟨rfl, rfl⟩
  · exact .inl ⟨rfl, rfl⟩

/-! ### Behind blanks -/

/-- Where `p` and `q` find nothing and say nothing, they agree. -/
theorem declines_agree (h : L.place c c') {p q : Parse (Option α)}
    (none : ∀ cap errors, Declines ⟨depth, cap⟩ ⟨c, errors, nested⟩ p)
    (none' : ∀ cap errors, Declines ⟨depth, cap⟩ ⟨c', errors, nested⟩ q) :
    L.AgreeAt depth nested c c' p q :=
  ⟨_, .quiet none, .inr ⟨_, .quiet none', rfl, h, rfl, rfl⟩⟩

/-- At the end of a text `p` finds nothing. -/
def FailsAtEnd {α : Type} (p : Parse (Option α)) : Prop :=
  ∀ limits s, s.cursor.rest = [] → Declines limits s p

theorem FailsAtEnd.comesTo {α : Type} {p : Parse (Option α)} (h : FailsAtEnd p) (atEnd : c.rest = []) :
    ComesTo depth c nested p ⟨none, c, nested, []⟩ :=
  .quiet fun cap errors => h ⟨depth, cap⟩ ⟨c, errors, nested⟩ atEnd

/-- At the ends of both texts, `p` and `q` find nothing and complain alike, unless there is a complaint that
tells. -/
def EndAlike (L : Likeness) (p q : Parse (Option α)) : Prop :=
  ∀ depth nested c c', L.finished c c' → ∃ o, ComesTo depth c nested p o ∧ o.result = none ∧
    ((∃ e ∈ o.complaints, L.tells e) ∨ ∃ o', ComesTo depth c' nested q o' ∧ o'.result = none ∧
      o'.nested = o.nested ∧ o'.complaints = o.complaints)

omit [HasTexts α] in
theorem FailsAtEnd.endAlike {p q : Parse (Option α)} (h : FailsAtEnd p) (h' : FailsAtEnd q) :
    EndAlike L p q := by
  intro depth nested c c' ends
  obtain ⟨atEnd, atEnd'⟩ := L.atEnd ends
  exact ⟨_, h.comesTo atEnd, rfl, .inr ⟨_, h'.comesTo atEnd', rfl, rfl, rfl⟩⟩

theorem comesTo_afterBlank_none {α : Type} {p : Parse (Option α)} {o : Outcome (Option α)}
    (h : ComesTo depth c.skipBlank nested p o) (none : o.result = none) :
    ComesTo depth c nested (afterBlank p) ⟨.none, c, o.nested, o.complaints⟩ := by
  intro cap errors
  simp only [afterBlank, ensures_bind, ensures_cursor, ensures_skipBlank]
  refine (h cap errors).mono ?_
  rintro _ _ ⟨rfl, rfl⟩
  rw [none]
  exact ⟨rfl, rfl⟩

/-- **What is read behind blanks agrees.** Where it is not found, both cursors are put back. -/
theorem afterBlank_agrees (h : L.place c c') {p q : Parse (Option α)}
    (agree : ∀ nested d d', L.place d d' → (d.rest = [] → d'.rest = []) → L.AgreeAt depth nested d d' p q)
    (ends : EndAlike L p q) : L.AgreeAt depth nested c c' (afterBlank p) (afterBlank q) := by
  rcases L.skipBlank h with ⟨placed, last⟩ | finished
  · rw [afterBlank, afterBlank, agreeAt_cursor, skipBlank, agreeAt_move]
    refine (agree nested _ _ placed last).bind ?_
    rintro nested d d' (_ | b) placed
    · exact (agreeAt_moveTo c c' _ _).2 (.pure h none)
    · exact .pure placed (some b)
  · obtain ⟨o, comes, none, ⟨e, he, telling⟩ | ⟨o', comes', none', nested', complaints⟩⟩ :=
      ends depth nested _ _ finished
    · exact ⟨_, comesTo_afterBlank_none comes none, .inl ⟨⟨.none, rfl⟩, ⟨c', h⟩, e, he, telling⟩⟩
    · exact ⟨_, comesTo_afterBlank_none comes none, .inr ⟨_, comesTo_afterBlank_none comes' none', rfl, h,
        nested', complaints⟩⟩

theorem found_agrees {p : Parse Bool} (h : L.AgreeAt depth nested c c' p p) :
    L.AgreeAt depth nested c c' (found p) (found p) := by
  refine h.bind ?_
  rintro nested d d' (_ | _) placed
  · exact .pure placed (none : Option Unit)
  · exact .pure placed (some ())

theorem isSome_agrees {p q : Parse (Option α)} (h : L.AgreeAt depth nested c c' p q) :
    L.AgreeAt depth nested c c' (return (← p).isSome) (return (← q).isSome) := by
  refine h.bind ?_
  rintro nested d d' (_ | b) placed
  · exact .pure placed false
  · exact .pure placed true

theorem eatCharAfterBlank_agrees {ch : Char} (inside : inLine ch = true) :
    L.Agrees (eatCharAfterBlank ch) := by
  intro depth nested c c' h
  have fails : FailsAtEnd (found (eatChar ch)) := fun limits s atEnd =>
    eatChar_nothing (by rw [Cursor.peek, atEnd]; exact fun e => by cases e)
  exact isSome_agrees (afterBlank_agrees h
    (fun nested d d' placed _ => found_agrees (eatChar_agrees inside _ nested d d' placed))
    (fails.endAlike fails))

theorem eatWordAfterBlank_agrees {word : String} (all : word.toList.all isWordChar = true)
    (ne : word.toList ≠ []) : L.Agrees (eatWordAfterBlank word) := by
  intro depth nested c c' h
  have fails : FailsAtEnd (found (eatWord word)) := fun limits s atEnd => by
    refine eatWord_nothing ?_
    rw [← Bool.not_eq_true, Cursor.checkWord_iff all, atEnd]
    exact ne.symm
  exact isSome_agrees (afterBlank_agrees h
    (fun nested d d' placed _ => found_agrees (eatWord_agrees all _ nested d d' placed))
    (fails.endAlike fails))

/-- **What is sought behind blanks** is complained about behind them, also where the texts end. -/
theorem sought_agrees (h : L.place c c') {p q : Parse (Option α)} {complaint : Complaint}
    (isSought : complaint.isSought = true)
    (agree : ∀ nested d d', L.place d d' → L.AgreeAt depth nested d d' p q) (fails : FailsAtEnd p) :
    L.AgreeAt depth nested c c' (do skipBlank; orReport complaint p)
      (do skipBlank; orReport complaint q) := by
  rcases L.skipBlank h with ⟨placed, -⟩ | finished
  · rw [skipBlank, agreeAt_move]
    exact orReport_agrees (agree nested _ _ placed) complaint
  · obtain ⟨d', placed⟩ := L.placed_advanceBy h (blankRun false c.rest)
    have complained := comesTo_orReport_none (fails.comesTo (L.atEnd finished).1 : ComesTo depth _ nested p _)
      complaint
    rw [skipBlank, agreeAt_move]
    refine ⟨_, complained, .inl ⟨⟨none, rfl⟩, ⟨d', placed⟩, _, ?_, L.sought finished isSought⟩⟩
    exact List.mem_singleton.2 rfl

theorem sought_then_agrees (h : L.place c c') {p q : Parse (Option α)} {complaint : Complaint}
    (isSought : complaint.isSought = true)
    (agree : ∀ nested d d', L.place d d' → L.AgreeAt depth nested d d' p q) (fails : FailsAtEnd p)
    {f g : Option α → Parse β}
    (next : ∀ nested d d' b, L.place d d' → L.AgreeAt depth nested d d' (f (mapTexts L.view b)) (g b)) :
    L.AgreeAt depth nested c c' (do skipBlank; let r ← orReport complaint p; f r)
      (do skipBlank; let r ← orReport complaint q; g r) := by
  rw [← bind_assoc, ← bind_assoc]
  exact (sought_agrees h isSought agree fails).bind next

/-! ### Nodes -/

/-- A node between corresponding places. -/
theorem branchFrom_agrees {start start' : Cursor} (begins : L.place start start') (h : L.place c c')
    (kind : Kind) (children : List Node) :
    L.AgreeAt depth nested c c' (branchFrom kind start (mapTexts L.view children))
      (branchFrom kind start' children) := by
  rw [branchFrom, branchFrom, agreeAt_spanFrom, L.spanFrom begins h]
  have same : Node.branch kind (mapTexts L.view children) (c.spanFrom start.mark) =
      mapTexts L.view (Node.branch kind children (c.spanFrom start.mark)) := by
    exact (Node.mapText_mk L.view kind none children _).symm
  rw [same]
  exact .pure h _

/-- The node with the text between corresponding places. -/
theorem textNode_eq {start start' : Cursor} (begins : L.place start start') (h : L.place c c')
    (kind : Kind) (children : List Node) :
    (⟨kind, some (.text (String.ofList (c.textSince start))), mapTexts L.view children,
      c.spanFrom start.mark⟩ : Node) = mapTexts L.view
        ⟨kind, some (.text (String.ofList (c'.textSince start'))), children, c'.spanFrom start'.mark⟩ := by
  rw [L.spanFrom begins h, L.text begins h]
  exact (Node.mapText_mk L.view kind (some (.text _)) children _).symm

/-- A node with the text between corresponding places, and what is read behind it. -/
theorem textNodeFrom_then {start start' : Cursor} (begins : L.place start start') (h : L.place c c')
    {kind : Kind} (children : List Node) {f g : Node → Parse α}
    (next : ∀ n : Node, n.value = some (.text (String.ofList (c'.textSince start'))) →
      L.AgreeAt depth nested c c' (f (mapTexts L.view n)) (g n)) :
    L.AgreeAt depth nested c c' (textNodeFrom kind start (mapTexts L.view children) >>= f)
      (textNodeFrom kind start' children >>= g) := by
  show L.AgreeAt depth nested c c'
    (f ⟨kind, some (.text (String.ofList (c.textSince start))), mapTexts L.view children,
      c.spanFrom start.mark⟩)
    (g ⟨kind, some (.text (String.ofList (c'.textSince start'))), children, c'.spanFrom start'.mark⟩)
  rw [textNode_eq begins h]
  exact next _ rfl

theorem textNodeFrom_agrees {start start' : Cursor} (begins : L.place start start') (h : L.place c c')
    (kind : Kind) (children : List Node) :
    L.AgreeAt depth nested c c' (textNodeFrom kind start (mapTexts L.view children))
      (textNodeFrom kind start' children) := by
  have same : L.AgreeAt depth nested c c'
      (textNodeFrom kind start (mapTexts L.view children) >>= Pure.pure)
      (textNodeFrom kind start' children >>= Pure.pure) :=
    textNodeFrom_then begins h children fun n _ => .pure h n
  simpa only [bind_pure] using same

theorem some_agrees {p q : Parse α} (h : L.AgreeAt depth nested c c' p q) :
    L.AgreeAt depth nested c c' (return some (← p)) (return some (← q)) :=
  h.bind fun _ _ _ b placed => .pure placed (some b)

/-- A leaf that does not leave the line. -/
theorem takeLeaf_agrees (h : L.place c c') (kind : Kind) {n : Nat} (within : n ≤ (c.run inLine).length) :
    L.AgreeAt depth nested c c' (takeLeaf kind n) (takeLeaf kind n) := by
  rw [takeLeaf, agreeAt_cursor, agreeAt_move]
  exact textNodeFrom_agrees h (L.advanceBy h within) kind []

/-! ### Repetition -/

/-- **A repetition agrees.** The fuel of the first reading lasts, since every round reads something, and the
second reading has no less. -/
theorem manyFuel_agrees {step : Parse (Option α)} (agree : L.Agrees step) (consumes : Consumes step)
    {n m : Nat} (h : L.place c c') (enough : c.rest.length < n) (more : n ≤ m) :
    L.AgreeAt depth nested c c' (manyFuel step n) (manyFuel step m) := by
  induction n generalizing nested c c' m with
  | zero => omega
  | succ n ih =>
    obtain ⟨m, rfl⟩ : ∃ k, m = k + 1 := ⟨m - 1, by omega⟩
    have shorter (o : Outcome (Option α)) (comes : ComesTo depth c nested step o) :
        o.result.isSome = true → o.cursor.rest.length < c.rest.length := by
      have reads := (comes 0 []).and (consumes ⟨depth, 0⟩ ⟨c, [], nested⟩)
      obtain ⟨⟨result, state⟩, shorter⟩ := reads
      rw [result, state] at shorter
      exact shorter
    refine (agree depth nested c c' h).bind' (P := fun r d => r.isSome = true →
      d.rest.length < c.rest.length) shorter ?_
    rintro nested d d' (_ | b) placed fact
    · exact .pure placed []
    · have := fact rfl
      exact (ih placed (by omega) (by omega)).bind fun _ _ _ bs placed => .pure placed (b :: bs)

theorem many_agrees {step : Parse (Option α)} (agree : L.Agrees step) (consumes : Consumes step) :
    L.Agrees (many step) := by
  intro depth nested c c' h
  rw [many, agreeAt_cursor]
  exact manyFuel_agrees agree consumes h (Nat.lt_succ_self _) (Nat.succ_le_succ (L.length_le h))

theorem commaList_agrees {item : Parse (Option α)} (agree : L.Agrees item) (moves : Moves item) :
    L.Agrees (commaList item) := by
  intro depth nested c c' h
  refine (agree depth nested c c' h).bind ?_
  rintro nested d d' (_ | first) placed
  · exact .pure placed []
  · have further : L.Agrees (nextInList item) := by
      intro depth nested c c' h
      refine (eatCharAfterBlank_agrees (by decide) depth nested c c' h).bind ?_
      rintro nested d d' (_ | _) placed
      · exact .pure placed none
      · exact agree _ _ _ _ placed
    refine (many_agrees further (nextInList_consumes moves) _ _ _ _ placed).bind ?_
    intro nested d d' items placed
    exact .pure placed (first :: items)

/-! ### Leaves -/

theorem identifier_agrees : L.Agrees identifier := by
  intro depth nested c c' h
  rw [identifier, agreeAt_cursor, L.any_peek h rfl rfl, L.run_eq h rfl rfl]
  split
  · exact some_agrees (takeLeaf_agrees h _ (c.length_run_le_line rfl rfl))
  · exact .pure h none

theorem string_agrees : L.Agrees string := by
  intro depth nested c c' h
  rw [string, agreeAt_cursor]
  by_cases quote : c.peek = some '"'
  · have quote' := (L.peek_iff h (by decide)).2 quote
    obtain ⟨rest, hrest⟩ := List.head?_eq_some_iff.1 quote
    obtain ⟨rest', hrest'⟩ := List.head?_eq_some_iff.1 quote'
    rw [if_pos quote, if_pos quote', hrest, hrest', List.tail_cons, List.tail_cons]
    dsimp only
    rw [agreeAt_move]
    have leaf (nested : Bool) (d d' : Cursor) (placed : L.place d d') : L.AgreeAt depth nested d d'
        (return some (← textNodeFrom .string c [])) (return some (← textNodeFrom .string c' [])) :=
      some_agrees (textNodeFrom_agrees h placed .string [])
    have noReturn : '\r' ∉ rest := fun mem => L.noReturn h (by rw [hrest]; exact List.mem_cons_of_mem _ mem)
    have within : (stringTail rest).1 + 1 ≤ (c.run inLine).length := by
      rw [Cursor.run, hrest, List.takeWhile_cons_of_pos (by decide)]
      exact Nat.succ_le_succ (length_stringTail_le_line noReturn)
    rcases L.string h hrest hrest' with same | ⟨unclosed, telling⟩
    · rw [same]
      have placed := L.advanceBy h within
      split
      · rw [agreeAt_spanFrom, L.spanFrom h placed]
        exact (report_agreeAt placed _ _).bind fun nested d d' _ placed => leaf nested d d' placed
      · exact leaf _ _ _ placed
    · obtain ⟨d', placed⟩ := L.placed_advanceBy h ((stringTail rest).1 + 1)
      have complains : (!(stringTail rest).2) = true := by rw [unclosed]; rfl
      rw [if_pos complains]
      exact telling_agrees (f := fun _ => do return some (← textNodeFrom .string c [])) telling
        (leaf nested _ d' placed) _ _
  · rw [if_neg quote, if_neg fun e => quote ((L.peek_iff h (by decide)).1 e)]
    exact .pure h none

theorem number_agrees : L.Agrees number := by
  intro depth nested c c' h
  rw [number, agreeAt_cursor, L.run_eq h rfl rfl]
  dsimp only
  split
  · exact .pure h none
  · rw [agreeAt_move, agreeAt_spanFrom]
    have placed := L.advanceBy h (c.length_run_le_line (p := Char.isDigit) rfl rfl)
    rw [L.spanFrom h placed]
    split
    · exact .pure placed (some (Node.number _ _))
    · exact (report_agreeAt placed _ _).bind fun _ _ _ _ placed => .pure placed (some (Node.number _ _))

end Parse

end PatternRules

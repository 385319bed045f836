import PatternRules.Grammar.Document

/-!
What a reading ensures. `Ensures limits s p post` says that the result of `p`, read from the state
`s`, and the state it ends in satisfy `post`. Every reading gives a result, so nothing is said about
failure, and `post` may be taken apart along the program:

* `ensures_bind`, `ensures_pure` and one equation for each basic step turn a program into its
  conditions;
* `Ensures.mono` and `Ensures.bind` put the contract of a smaller reading in its place.
-/

namespace PatternRules.Parse

variable {α β : Type} {limits : Limits} {s : ParseState}

/-- Reading with `p` from `s` gives a result and ends in a state that satisfy `post`. -/
def Ensures (limits : Limits) (s : ParseState) (p : Parse α) (post : α → ParseState → Prop) : Prop :=
  let outcome : α × ParseState := (p.run limits).run s
  post outcome.1 outcome.2

theorem Ensures.mono {p : Parse α} {post post' : α → ParseState → Prop}
    (h : Ensures limits s p post) (weaker : ∀ a t, post a t → post' a t) :
    Ensures limits s p post' :=
  weaker _ _ h

theorem Ensures.bind {p : Parse α} {f : α → Parse β} {post : α → ParseState → Prop}
    {post' : β → ParseState → Prop} (h : Ensures limits s p post)
    (next : ∀ a t, post a t → Ensures limits t (f a) post') : Ensures limits s (p >>= f) post' :=
  next _ _ h

theorem Ensures.and {p : Parse α} {post post' : α → ParseState → Prop} (h : Ensures limits s p post)
    (h' : Ensures limits s p post') : Ensures limits s p fun a t => post a t ∧ post' a t :=
  ⟨h, h'⟩

/-! ## Basic steps -/

theorem ensures_pure (a : α) (post : α → ParseState → Prop) :
    Ensures limits s (pure a) post ↔ post a s :=
  Iff.rfl

theorem ensures_bind (p : Parse α) (f : α → Parse β) (post : β → ParseState → Prop) :
    Ensures limits s (p >>= f) post ↔
      Ensures limits s p fun a t => Ensures limits t (f a) post :=
  Iff.rfl

theorem ensures_read (post : Limits → ParseState → Prop) :
    Ensures limits s (read : Parse Limits) post ↔ post limits s :=
  Iff.rfl

theorem ensures_get (post : ParseState → ParseState → Prop) :
    Ensures limits s (get : Parse ParseState) post ↔ post s s :=
  Iff.rfl

theorem ensures_modify (f : ParseState → ParseState) (post : PUnit → ParseState → Prop) :
    Ensures limits s (modify f : Parse PUnit) post ↔ post () (f s) :=
  Iff.rfl

theorem ensures_cursor (post : Cursor → ParseState → Prop) :
    Ensures limits s cursor post ↔ post s.cursor s :=
  Iff.rfl

theorem ensures_move (f : Cursor → Cursor) (post : Unit → ParseState → Prop) :
    Ensures limits s (move f) post ↔ post () { s with cursor := f s.cursor } :=
  Iff.rfl

theorem ensures_peek (post : Option Char → ParseState → Prop) :
    Ensures limits s peek post ↔ post s.cursor.peek s :=
  Iff.rfl

theorem ensures_skipBlank (post : Unit → ParseState → Prop) :
    Ensures limits s skipBlank post ↔ post () { s with cursor := s.cursor.skipBlank } :=
  Iff.rfl

theorem ensures_skipInlineBlank (post : Unit → ParseState → Prop) :
    Ensures limits s skipInlineBlank post ↔
      post () { s with cursor := s.cursor.skipInlineBlank } :=
  Iff.rfl

theorem ensures_spanFrom (start : Cursor) (post : Span → ParseState → Prop) :
    Ensures limits s (spanFrom start) post ↔ post (s.cursor.spanFrom start.mark) s :=
  Iff.rfl

theorem ensures_errorCount (post : Nat → ParseState → Prop) :
    Ensures limits s errorCount post ↔ post s.errors.length s :=
  Iff.rfl

theorem ensures_errorsFull (post : Bool → ParseState → Prop) :
    Ensures limits s errorsFull post ↔ post (decide (limits.errors ≤ s.errors.length)) s :=
  Iff.rfl

theorem ensures_branchFrom (kind : Kind) (start : Cursor) (children : List Node)
    (post : Node → ParseState → Prop) :
    Ensures limits s (branchFrom kind start children) post ↔
      post (.branch kind children (s.cursor.spanFrom start.mark)) s :=
  Iff.rfl

theorem ensures_textNodeFrom (kind : Kind) (start : Cursor) (children : List Node)
    (post : Node → ParseState → Prop) :
    Ensures limits s (textNodeFrom kind start children) post ↔
      post ⟨kind, some (.text (String.ofList (s.cursor.textSince start))), children,
        s.cursor.spanFrom start.mark⟩ s :=
  Iff.rfl

/-! ## Repetition -/

theorem ensures_manyFuel_succ (step : Parse (Option α)) (fuel : Nat) (post : List α → ParseState → Prop) :
    Ensures limits s (manyFuel step (fuel + 1)) post ↔ Ensures limits s step fun r t =>
      (r = none → post [] t) ∧
        ∀ item, r = some item → Ensures limits t (manyFuel step fuel) fun items u => post (item :: items) u := by
  rw [manyFuel, ensures_bind]
  unfold Ensures
  generalize (step.run limits).run s = outcome
  obtain ⟨_ | item, t⟩ := outcome
  · exact ⟨fun h => ⟨fun _ => h, fun item found => by cases found⟩, fun h => h.1 rfl⟩
  · refine ⟨fun h => ⟨fun none => (by cases none), ?_⟩, fun h => h.2 item rfl⟩
    intro _ found
    cases found
    exact h

end PatternRules.Parse

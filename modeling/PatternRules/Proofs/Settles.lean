import PatternRules.Proofs.Accepts
import PatternRules.Proofs.Reads

/-!
What a reading leaves behind beside its result. Errors are only ever added, each about a place the cursor
has come to by then, and none is added when there are too many. `Carries P Q p` says that `p` leads
from states with `P` to states with `Q`, and that the nodes it gives are `Node.Faithful`: no text but that
of a resolver flag runs over a line, and a number stands for digits that, where they are too many, were
complained about.

* `ParseState.Settled`: every error starts at or in front of the cursor;
* `ParseState.Orderly`: the same once the blanks at the cursor are read, for a cursor that was put back in
  front of them;
* `Kept.trans`: two readings in a row;
* `Tries.afterBlank`: what happens behind blanks happens in order.
-/

namespace PatternRules

/-! ## Errors so far -/

/-- The error is about the next character at a place, or about some text from there on. -/
def SyntaxError.StartsAt (e : SyntaxError) (a : Cursor) : Prop :=
  e.span = a.nextSpan ∨ ∃ b, a.Reaches b ∧ e.span = b.spanFrom a.mark

theorem SyntaxError.StartsAt.start_eq {e : SyntaxError} {a : Cursor} (h : e.StartsAt a) :
    e.span.start = a.position := by
  rcases h with h | ⟨b, -, h⟩
  · rw [h]
    rfl
  · rw [h]
    rfl

namespace ParseState

/-- The state with one more error, unless there are too many. -/
def recording (s : ParseState) (limits : Limits) (e : SyntaxError) : ParseState :=
  if limits.errors ≤ s.errors.length then s else { s with errors := s.errors ++ [e] }

/-- Every error starts at or in front of the cursor. -/
structure Settled (text : List Char) (s : ParseState) : Prop where
  reached : (Cursor.ofChars text).Reaches s.cursor
  placed : ∀ e ∈ s.errors, ∃ a, (Cursor.ofChars text).Reaches a ∧ a.Reaches s.cursor ∧ e.StartsAt a

/-- Every error starts at or in front of what follows the blanks at the cursor. -/
structure Orderly (text : List Char) (s : ParseState) : Prop where
  reached : (Cursor.ofChars text).Reaches s.cursor
  behind : Settled text { s with cursor := s.cursor.skipBlank }

theorem settled_start (text : List Char) : Settled text ⟨.ofChars text, [], false⟩ :=
  ⟨.refl _, by simp⟩

section

variable {text : List Char} {limits : Limits} {s : ParseState}

theorem Settled.move (h : s.Settled text) {c : Cursor} (reaches : s.cursor.Reaches c) :
    Settled text { s with cursor := c } := by
  refine ⟨h.reached.trans reaches, ?_⟩
  intro e he
  obtain ⟨a, reached, before, starts⟩ := h.placed e he
  exact ⟨a, reached, before.trans reaches, starts⟩

theorem Settled.orderly (h : s.Settled text) : s.Orderly text :=
  ⟨h.reached, h.move (Cursor.reaches_skipBlank _)⟩

/-- Where no blanks are, everything is settled. -/
theorem Orderly.settled (h : s.Orderly text) (stop : Stops opensBlank s.cursor.rest) :
    s.Settled text := by
  have same : s.cursor.skipBlank = s.cursor := by
    have none : blankRun false s.cursor.rest = 0 := @blankRun_append [] _ rfl stop
    rw [Cursor.skipBlank, none]
    rfl
  have := h.behind
  rwa [same] at this

theorem Settled.record (h : s.Settled text) {e : SyntaxError} {a : Cursor}
    (reached : (Cursor.ofChars text).Reaches a) (before : a.Reaches s.cursor) (starts : e.StartsAt a) :
    (s.recording limits e).Settled text := by
  unfold recording
  split
  · exact h
  · refine ⟨h.reached, ?_⟩
    intro e' he'
    rcases List.mem_append.1 he' with old | new
    · exact h.placed e' old
    · rw [List.mem_singleton] at new
      exact ⟨a, reached, before, new ▸ starts⟩

theorem Settled.start_le (h : s.Settled text) {e : SyntaxError} (he : e ∈ s.errors) :
    e.span.start ≤ s.cursor.position := by
  obtain ⟨a, -, before, starts⟩ := h.placed e he
  rw [starts.start_eq]
  exact before.position_le

@[simp]
theorem cursor_recording (s : ParseState) (limits : Limits) (e : SyntaxError) :
    (s.recording limits e).cursor = s.cursor := by
  unfold recording
  split
  · rfl
  · rfl

@[simp]
theorem nestingReported_recording (s : ParseState) (limits : Limits) (e : SyntaxError) :
    (s.recording limits e).nestingReported = s.nestingReported := by
  unfold recording
  split
  · rfl
  · rfl

/-- Complaints do not depend on where the cursor is. -/
theorem recording_moved (s : ParseState) (limits : Limits) (e : SyntaxError) (c : Cursor) :
    { s.recording limits e with cursor := c } = recording { s with cursor := c } limits e := by
  unfold recording
  split
  · rfl
  · rfl

end

/-- A property of states that a complaint about the next character keeps. -/
class Steady (P : List Char → ParseState → Prop) : Prop where
  record : ∀ {text s} (limits : Limits) {e : SyntaxError}, P text s → e.StartsAt s.cursor →
    P text (s.recording limits e)

instance : Steady Settled where
  record _ _ h starts := h.record h.reached (.refl _) starts

instance : Steady Orderly where
  record limits e h starts := by
    refine ⟨by rw [cursor_recording]; exact h.reached, ?_⟩
    rw [recording_moved, cursor_recording]
    exact h.behind.record h.reached (Cursor.reaches_skipBlank _) starts

end ParseState

/-- `new` are the errors `old` and perhaps more, unless there were too many already. -/
structure Extends (limits : Limits) (old new : List SyntaxError) : Prop where
  front : old <+: new
  full : limits.errors ≤ old.length → new = old

namespace Extends

variable {limits : Limits} {old new newer : List SyntaxError}

theorem refl : Extends limits old old := ⟨List.prefix_rfl, fun _ => rfl⟩

theorem trans (h : Extends limits old new) (h' : Extends limits new newer) :
    Extends limits old newer := by
  refine ⟨h.front.trans h'.front, ?_⟩
  intro full
  have same := h.full full
  rw [h'.full (by rw [same]; exact full), same]

theorem recording (s : ParseState) (e : SyntaxError) :
    Extends limits s.errors (s.recording limits e).errors := by
  unfold ParseState.recording
  split
  · exact .refl
  · next room => exact ⟨List.prefix_append _ _, fun full => absurd full room⟩

end Extends

/-! ## What nodes say -/

namespace Node

/-- The number was written with more digits than fit, and that was reported, unless there were too many
errors already, all of them at or in front of the number. -/
def Reported (limits : Limits) (errors : List SyntaxError) (digits : List Char) (n : Node) : Prop :=
  ⟨(Complaint.numberTooLarge (String.ofList digits)).message, n.span⟩ ∈ errors ∨
    limits.errors ≤ errors.length ∧ ∀ e ∈ errors, e.span.start ≤ n.span.start

/-- The text of a node stays on its line, unless it is a resolver flag; a number was read from digits. -/
structure Faithful (text : List Char) (limits : Limits) (errors : List SyntaxError) (n : Node) :
    Prop where
  oneLine : n.kind ≠ .resolverFlag → ∀ v, n.value = some (.text v) → '\n' ∉ v.toList
  number : n.kind = .number → ∃ a, (Cursor.ofChars text).Reaches a ∧ a.run Char.isDigit ≠ [] ∧
    n.span = (a.skipWhile Char.isDigit).spanFrom a.mark ∧
    n.value = some (.number (min (decimalValue (a.run Char.isDigit)) Value.maxNumber)) ∧
    (decimalValue (a.run Char.isDigit) ≤ Value.maxNumber ∨
      n.Reported limits errors (a.run Char.isDigit))

theorem Reported.mono {limits : Limits} {old new : List SyntaxError} {digits : List Char} {n : Node}
    (h : n.Reported limits old digits) (grows : Extends limits old new) :
    n.Reported limits new digits := by
  rcases h with h | ⟨full, before⟩
  · exact .inl (grows.front.subset h)
  · have same := grows.full full
    exact .inr ⟨same ▸ full, same ▸ before⟩

theorem Faithful.mono {text : List Char} {limits : Limits} {old new : List SyntaxError} {n : Node}
    (h : n.Faithful text limits old) (grows : Extends limits old new) :
    n.Faithful text limits new := by
  refine ⟨h.oneLine, ?_⟩
  intro isNumber
  obtain ⟨a, reached, some, span, value, small | reported⟩ := h.number isNumber
  · exact ⟨a, reached, some, span, value, .inl small⟩
  · exact ⟨a, reached, some, span, value, .inr (reported.mono grows)⟩

theorem nodesOf_append (ns ms : List Node) : nodesOf (ns ++ ms) = nodesOf ns ++ nodesOf ms := by
  induction ns with
  | nil => rw [List.nil_append, nodesOf, List.nil_append]
  | cons n ns ih => rw [List.cons_append, nodesOf, nodesOf, ih, List.append_assoc]

theorem nodesOf_singleton (n : Node) : nodesOf [n] = n :: nodesOf n.children := by
  obtain ⟨kind, value, children, span⟩ := n
  rw [nodesOf, nodesOf, List.append_nil, nodes]

end Node

/-! ## Contracts -/

open ParseState (Settled Orderly Steady)

/-- What a reading from `s` to `t` that gave some nodes keeps. -/
structure Kept (text : List Char) (limits : Limits) (P Q : List Char → ParseState → Prop)
    (s t : ParseState) (ns : List Node) : Prop where
  grows : Extends limits s.errors t.errors
  nested : t.nestingReported = true → s.nestingReported = true ∨ limits.errors ≤ s.errors.length ∨
    s.errors.length < t.errors.length
  state : P text s → Q text t
  nodes : P text s → ∀ n ∈ Node.nodesOf ns, n.Faithful text limits t.errors

namespace Kept

variable {text : List Char} {limits : Limits} {P Q R : List Char → ParseState → Prop}
  {s t u : ParseState} {ns ms : List Node}

theorem refl (h : P text s → Q text s) : Kept text limits P Q s s [] :=
  ⟨.refl, .inl, h, by simp [Node.nodesOf]⟩

theorem placed {c : Cursor} (h : P text s → Q text { s with cursor := c }) :
    Kept text limits P Q s { s with cursor := c } [] :=
  ⟨.refl, .inl, h, by simp [Node.nodesOf]⟩

theorem moved {c : Cursor} (h : s.cursor.Reaches c) :
    Kept text limits Settled Settled s { s with cursor := c } [] :=
  .placed fun settled => settled.move h

theorem blank : Kept text limits Orderly Settled s { s with cursor := s.cursor.skipBlank } [] :=
  .placed fun orderly => orderly.behind

theorem inline :
    Kept text limits Settled Settled s { s with cursor := s.cursor.skipInlineBlank } [] :=
  .moved (Cursor.reaches_skipInlineBlank _)

theorem recorded {e : SyntaxError} (h : P text s → Q text (s.recording limits e)) :
    Kept text limits P Q s (s.recording limits e) [] :=
  ⟨.recording s e, by simpa using .inl, h, by simp [Node.nodesOf]⟩

/-- What was just read is complained about. -/
theorem complained {c : Cursor} (h : s.cursor.Reaches c) (message : String) :
    Kept text limits Settled Settled s
      (ParseState.recording { s with cursor := c } limits ⟨message, c.spanFrom s.cursor.mark⟩) [] := by
  refine ⟨.recording { s with cursor := c } _, by simpa using .inl, ?_, by simp [Node.nodesOf]⟩
  intro settled
  exact (settled.move h).record settled.reached h (.inr ⟨c, h, rfl⟩)

/-- Two readings in a row. -/
theorem trans (h : Kept text limits P Q s t ns) (h' : Kept text limits Q R t u ms) :
    Kept text limits P R s u (ns ++ ms) := by
  refine ⟨h.grows.trans h'.grows, ?_, fun hs => h'.state (h.state hs), ?_⟩
  · intro nested
    have before := h.grows.front.length_le
    have behind := h'.grows.front.length_le
    rcases h'.nested nested with nested | full | more
    · rcases h.nested nested with nested | full | more
      · exact .inl nested
      · exact .inr (.inl full)
      · exact .inr (.inr (by omega))
    · exact .inr (by omega)
    · exact .inr (.inr (by omega))
  intro hs n hn
  rw [Node.nodesOf_append, List.mem_append] at hn
  rcases hn with hn | hn
  · exact (h.nodes hs n hn).mono h'.grows
  · exact h'.nodes (h.state hs) n hn

/-- A reading and then one that gives no nodes. -/
theorem upTo (h : Kept text limits P Q s t ns) (h' : Kept text limits Q R t u []) :
    Kept text limits P R s u ns := by
  simpa using h.trans h'

theorem after (h : Kept text limits P Q s t []) (h' : Kept text limits Q R t u ms) :
    Kept text limits P R s u ms :=
  h.trans h'

theorem settle (h : Kept text limits P Settled s t ns) : Kept text limits P Orderly s t ns :=
  ⟨h.grows, h.nested, fun hs => (h.state hs).orderly, h.nodes⟩

theorem fromSettled (h : Kept text limits Orderly Q s t ns) : Kept text limits Settled Q s t ns :=
  ⟨h.grows, h.nested, fun hs => h.state hs.orderly, fun hs => h.nodes hs.orderly⟩

/-- A reading whose nodes are dropped. -/
theorem drop (h : Kept text limits P Q s t ns) : Kept text limits P Q s t [] :=
  ⟨h.grows, h.nested, h.state, by simp [Node.nodesOf]⟩

theorem node {kind : Kind} {value : Option Value} {span : Span} (h : Kept text limits P Q s t ns)
    (self : P text s → Node.Faithful text limits t.errors ⟨kind, value, ns, span⟩) :
    Kept text limits P Q s t [⟨kind, value, ns, span⟩] := by
  refine ⟨h.grows, h.nested, h.state, ?_⟩
  intro hs n hn
  rw [Node.nodesOf_singleton, List.mem_cons] at hn
  rcases hn with rfl | hn
  · exact self hs
  · exact h.nodes hs n hn

theorem branch {kind : Kind} {span : Span} (h : Kept text limits P Q s t ns) (hk : kind ≠ .number) :
    Kept text limits P Q s t [.branch kind ns span] := by
  refine h.node fun _ => ⟨?_, fun isNumber => absurd isNumber hk⟩
  intro _ v hv
  cases hv

theorem ofText {kind : Kind} {span : Span} {chars : List Char} (h : Kept text limits P Q s t ns)
    (hk : kind ≠ .number) (oneLine : kind ≠ .resolverFlag → '\n' ∉ chars) :
    Kept text limits P Q s t [⟨kind, some (.text (String.ofList chars)), ns, span⟩] := by
  refine h.node fun _ => ⟨?_, fun isNumber => absurd isNumber hk⟩
  intro noFlag v hv
  cases hv
  rw [String.toList_ofList]
  exact oneLine noFlag

end Kept

namespace HasNodes

instance : HasNodes Unit := ⟨fun _ => []⟩

instance : HasNodes Bool := ⟨fun _ => []⟩

end HasNodes

namespace Parse

variable {α : Type} [HasNodes α] {text : List Char} {limits : Limits} {s : ParseState}
  {P Q R : List Char → ParseState → Prop}

/-- From states with `P`, `p` leads to states with `Q` and gives faithful nodes. -/
def Carries (P Q : List Char → ParseState → Prop) (p : Parse α) : Prop :=
  ∀ text limits s, Ensures limits s p fun r t => Kept text limits P Q s t (HasNodes.nodes r)

/-- If `p` finds something, it leads from states with `P` to states with `Q` and gives faithful nodes.
If it finds nothing, it stays where it is. -/
def Tries (P Q : List Char → ParseState → Prop) (p : Parse (Option α)) : Prop :=
  ∀ text limits s, Ensures limits s p fun r t =>
    r.elim (t.cursor = s.cursor ∧ Kept text limits P P s t []) fun a =>
      Kept text limits P Q s t (HasNodes.nodes a)

theorem Tries.orderly {p : Parse (Option α)} (h : Tries P Settled p) : Tries P Orderly p := by
  intro text limits s
  refine (h text limits s).mono ?_
  rintro (_ | a) t kept
  · exact kept
  · exact kept.settle

theorem Tries.carries {p : Parse (Option α)} (h : Tries P P p) : Carries P P p := by
  intro text limits s
  refine (h text limits s).mono ?_
  rintro (_ | a) t kept
  · exact kept.2
  · exact kept

/-! ## Complaints -/

theorem ensures_report (complaint : Complaint) (span : Span) (post : Unit → ParseState → Prop) :
    Ensures limits s (report complaint span) post ↔
      post () (s.recording limits ⟨complaint.message, span⟩) := by
  simp only [report, ensures_bind, ensures_errorsFull, ParseState.recording, decide_eq_true_eq]
  split
  · exact Iff.rfl
  · exact Iff.rfl

theorem reportHere_carries (P : List Char → ParseState → Prop) [Steady P] (complaint : Complaint) :
    Carries P P (reportHere complaint) := by
  intro text limits s
  simp only [reportHere, ensures_bind, ensures_cursor, ensures_report]
  exact .recorded fun h => Steady.record limits h (.inl rfl)

/-- A complaint that may have to be made. -/
theorem Ensures.complaining {β : Type} (text : List Char) {complain : Parse Unit} {rest : Unit → Parse β}
    {post : β → ParseState → Prop} {c : Prop} [Decidable c] (h : Carries P P complain)
    (next : ∀ t, Kept text limits P P s t [] → Ensures limits t (rest ()) post) :
    Ensures limits s (if c then complain >>= rest else rest ()) post := by
  split
  · exact (h text limits s).bind fun _ t kept => next t kept
  · exact next s (.refl id)

theorem Tries.orReport [Steady P] {p : Parse (Option α)} (h : Tries P Q p)
    (complaint : Complaint) : Tries P Q (orReport complaint p) := by
  intro text limits s
  simp only [Parse.orReport, ensures_bind]
  refine (h text limits s).mono ?_
  rintro (_ | a) t kept
  · obtain ⟨stays, kept⟩ := kept
    simp only [Option.isNone_none, if_true, reportHere, ensures_bind, ensures_cursor, ensures_report,
      ensures_pure, Option.elim_none, ParseState.cursor_recording]
    refine ⟨stays, ?_⟩
    exact kept.upTo (.recorded fun h => Steady.record limits h (.inl rfl))
  · exact kept

theorem Carries.orReport [Steady Q] {p : Parse (Option α)} (h : Carries P Q p)
    (complaint : Complaint) : Carries P Q (orReport complaint p) := by
  intro text limits s
  simp only [Parse.orReport, ensures_bind]
  refine (h text limits s).mono ?_
  intro r t kept
  refine .complaining text (reportHere_carries Q complaint) ?_
  intro u hu
  exact kept.upTo hu

/-! ## Matching -/

theorem Tries.afterBlank {p : Parse (Option α)} (h : Tries Settled Q p) :
    Tries Orderly Q (afterBlank p) := by
  intro text limits s
  simp only [Parse.afterBlank, ensures_bind, ensures_cursor, ensures_skipBlank]
  refine (h text limits _).mono ?_
  rintro (_ | a) t kept
  · -- The cursor is put back, so what was complained about now lies behind the blanks.
    obtain ⟨stays, kept⟩ := kept
    refine ⟨rfl, ⟨kept.grows, kept.nested, ?_, by simp [Node.nodesOf]⟩⟩
    intro orderly
    have settled := kept.state orderly.behind
    obtain ⟨c, errors, nested⟩ := t
    cases stays
    exact ⟨orderly.reached, settled⟩
  · exact Kept.blank.after kept

/-- Where a match succeeds, it is made. -/
theorem accept_tries {match? : Cursor → Option Cursor}
    (h : ∀ text s d, match? s.cursor = some d → P text s → Q text { s with cursor := d }) :
    Tries P Q (found (accept match?)) := by
  intro text limits s
  simp only [found, accept, ensures_bind, ensures_cursor]
  split
  · next d hd => exact .placed (h text s d hd)
  · exact ⟨rfl, .refl id⟩

theorem eatChar_tries (c : Char) : Tries Settled Settled (found (eatChar c)) :=
  accept_tries fun _ _ _ hd settled => settled.move (Cursor.reaches_of_consume? hd)

theorem eatLiteral_tries (literal : String) :
    Tries Settled Settled (found (eatLiteral literal)) :=
  accept_tries fun _ _ _ hd settled => settled.move (Cursor.reaches_of_consumeLiteral? hd)

theorem eatWord_tries (word : String) : Tries Settled Settled (found (eatWord word)) :=
  accept_tries fun _ _ _ hd settled => settled.move (Cursor.reaches_of_consumeWord? hd)

/-- Where something is matched that is no blank, there are no blanks to read. -/
theorem eatChar_settles (c : Char) (hc : opensBlank c = false) :
    Tries Orderly Settled (found (eatChar c)) := by
  refine accept_tries ?_
  intro text s d hd orderly
  have next : s.cursor.rest.head? = some c := by
    unfold Cursor.consume? at hd
    split at hd
    · next h => exact h
    · cases hd
  have stop : Stops opensBlank s.cursor.rest := by
    rw [Stops, next, Option.any_some, hc]
  exact (orderly.settled stop).move (Cursor.reaches_of_consume? hd)

theorem Tries.isSome {p : Parse (Option Unit)} (h : Tries P Q p) :
    Tries P Q (found (return (← p).isSome)) := by
  intro text limits s
  simp only [found, ensures_bind]
  refine (h text limits s).mono ?_
  rintro (_ | _) t kept
  · exact kept
  · exact kept

theorem eatCharAfterBlank_tries (c : Char) :
    Tries Orderly Settled (found (eatCharAfterBlank c)) :=
  (eatChar_tries c).afterBlank.isSome

theorem eatWordAfterBlank_tries (word : String) :
    Tries Orderly Settled (found (eatWordAfterBlank word)) :=
  (eatWord_tries word).afterBlank.isSome

/-- A match decides how reading goes on. -/
theorem Ensures.choosing {β : Type} (text : List Char) {p : Parse Bool} {yes no : Parse β}
    {post : β → ParseState → Prop} (h : Tries P Q (found p))
    (hyes : ∀ t, Kept text limits P Q s t [] → Ensures limits t yes post)
    (hno : ∀ t, t.cursor = s.cursor → Kept text limits P P s t [] → Ensures limits t no post) :
    Ensures limits s (do if ← p then yes else no) post := by
  have h := h text limits s
  simp only [found, ensures_bind] at h ⊢
  refine h.mono ?_
  rintro (_ | _) t kept
  · exact hno t kept.1 kept.2
  · exact hyes t kept

theorem Tries.matches {p : Parse Bool} (h : Tries P P (found p)) : Carries P P p := by
  intro text limits s
  have h := h text limits s
  simp only [found, ensures_bind] at h
  refine h.mono ?_
  rintro (_ | _) t kept
  · exact kept.2
  · exact kept

/-! ## Repetition -/

theorem Carries.manyFuel {step : Parse (Option α)} (h : Carries P P step) (fuel : Nat) :
    Carries P P (manyFuel step fuel) := by
  intro text limits s
  induction fuel generalizing s with
  | zero => exact .refl id
  | succ fuel ih =>
    simp only [Parse.manyFuel, ensures_bind]
    refine (h text limits s).mono ?_
    rintro (_ | a) t kept
    · exact kept
    · refine (ih t).bind ?_
      intro as u further
      exact kept.trans further

theorem Carries.many {step : Parse (Option α)} (h : Carries P P step) :
    Carries P P (many step) :=
  fun text limits s => h.manyFuel _ text limits s

theorem Carries.commaList {item : Parse (Option α)} (h : Carries Orderly Orderly item) :
    Carries Orderly Orderly (commaList item) := by
  have next : Carries Orderly Orderly (do if ← eatCharAfterBlank ',' then item else return none) := by
    intro text limits s
    refine .choosing text (eatCharAfterBlank_tries ',') ?_ ?_
    · intro t comma
      refine (h text limits t).mono ?_
      intro r u kept
      exact comma.settle.after kept
    · intro t _ kept
      exact kept
  intro text limits s
  simp only [Parse.commaList, ensures_bind]
  refine (h text limits s).mono ?_
  rintro (_ | a) t kept
  · exact kept
  · refine (next.many text limits t).bind ?_
    intro as u further
    exact kept.trans further

/-! ## Leaves -/

theorem textSince_advanceBy (n : Nat) (c : Cursor) : (c.advanceBy n).textSince c = c.rest.take n := by
  rw [Cursor.textSince, Cursor.pos_advanceBy, Nat.add_sub_cancel_left]
  rcases Nat.le_total n c.rest.length with h | h
  · rw [Nat.min_eq_left h]
  · rw [Nat.min_eq_right h, List.take_length, List.take_of_length_le h]

theorem takeLeaf_carries (text : List Char) {k : Kind} (hk : k ≠ .number) {n : Nat}
    (oneLine : '\n' ∉ s.cursor.rest.take n) :
    Ensures limits s (takeLeaf k n) fun leaf t => Kept text limits Settled Settled s t [leaf] := by
  simp only [takeLeaf, ensures_bind, ensures_cursor, ensures_move, ensures_textNodeFrom,
    textSince_advanceBy]
  exact (Kept.moved (Cursor.reaches_advanceBy n _)).ofText hk fun _ => oneLine

theorem not_mem_take_of_run {p : Char → Bool} (newline : p '\n' = false) (cs : List Char) :
    '\n' ∉ cs.take (cs.takeWhile p).length := by
  rw [← List.prefix_iff_eq_take.1 (List.takeWhile_prefix p)]
  intro mem
  have := List.mem_takeWhile_imp mem
  rw [newline] at this
  cases this

theorem not_mem_take_of_word {c : Cursor} {word : String} (h : c.peekWord? = some word) :
    '\n' ∉ c.rest.take word.length := by
  unfold Cursor.peekWord? at h
  split at h
  · cases h
  · cases h
    rw [String.length_ofList]
    exact not_mem_take_of_run rfl _

theorem identifier_tries : Tries Settled Settled identifier := by
  intro text limits s
  simp only [identifier, ensures_bind, ensures_cursor]
  split
  · exact takeLeaf_carries text (by decide) (not_mem_take_of_run rfl _)
  · exact ⟨rfl, .refl id⟩

/-- A string literal ends before its line does. -/
theorem not_mem_take_stringTail (cs : List Char) : '\n' ∉ cs.take (stringTail cs).1 := by
  fun_induction stringTail cs with
  | case1 => simp
  | case2 => simp
  | case3 cs => simp
  | case4 c cs hc n closed rest ih =>
    rw [rest] at ih
    simp only [List.take_succ_cons, List.mem_cons, not_or]
    exact ⟨by decide, fun e => hc e.symm, ih⟩
  | case5 cs => simp
  | case6 c cs _ _ hc => simp
  | case7 c cs _ _ _ hc n closed rest ih =>
    rw [rest] at ih
    simp only [List.take_succ_cons, List.mem_cons, not_or]
    exact ⟨fun e => hc (.inl e.symm), ih⟩

theorem string_tries : Tries Settled Settled string := by
  intro text limits s
  simp only [string, ensures_bind, ensures_cursor]
  split
  · next quote =>
    obtain ⟨rest, hrest⟩ : ∃ rest, s.cursor.rest = '"' :: rest := List.head?_eq_some_iff.1 quote
    have oneLine : '\n' ∉ s.cursor.rest.take ((stringTail s.cursor.rest.tail).1 + 1) := by
      rw [hrest, List.tail_cons, List.take_succ_cons, List.mem_cons, not_or]
      exact ⟨by decide, not_mem_take_stringTail rest⟩
    have reaches := Cursor.reaches_advanceBy ((stringTail s.cursor.rest.tail).1 + 1) s.cursor
    simp only [ensures_bind, ensures_move]
    split
    · simp only [ensures_bind, ensures_spanFrom, ensures_report, ensures_textNodeFrom, ensures_pure,
        ParseState.cursor_recording, textSince_advanceBy]
      exact (Kept.complained reaches _).ofText (by decide) fun _ => oneLine
    · simp only [ensures_bind, ensures_textNodeFrom, ensures_pure, textSince_advanceBy]
      exact (Kept.moved reaches).ofText (by decide) fun _ => oneLine
  · exact ⟨rfl, .refl id⟩

theorem number_tries : Tries Settled Settled number := by
  intro text limits s
  simp only [number, ensures_bind, ensures_cursor]
  split
  · exact ⟨rfl, .refl id⟩
  · next some =>
    have digits : s.cursor.run Char.isDigit ≠ [] := fun e => some (by rw [e]; rfl)
    have reaches := Cursor.reaches_skipWhile s.cursor Char.isDigit
    simp only [ensures_bind, ensures_move, ensures_spanFrom]
    split
    · next small =>
      refine (Kept.moved reaches).node fun settled => ⟨fun _ v hv => (by cases hv), fun _ => ?_⟩
      refine ⟨s.cursor, settled.reached, digits, rfl, ?_, .inl small⟩
      rw [Nat.min_eq_left small]
    · next large =>
      simp only [ensures_bind, ensures_report, ensures_pure]
      refine (Kept.complained reaches _).node fun settled =>
        ⟨fun _ v hv => (by cases hv), fun _ => ?_⟩
      refine ⟨s.cursor, settled.reached, digits, rfl, ?_, .inr ?_⟩
      · rw [Nat.min_eq_right (Nat.le_of_not_le large)]
      · -- What had been reported by then starts in front of the number.
        unfold ParseState.recording
        split
        · next full => exact .inr ⟨full, fun e he => settled.start_le he⟩
        · exact .inl (List.mem_append_right _ (List.mem_singleton.2 rfl))

end Parse

end PatternRules

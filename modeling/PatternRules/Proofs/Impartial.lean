import PatternRules.Proofs.Contract.Statement
import PatternRules.Proofs.Settles.Document

/-!
What a reading comes to does not depend on the errors recorded before. Its `Outcome` is fixed by where it
starts and by whether nesting was complained about: the result, where it ends, and the complaints it has.
The errors before it, and how many are recorded at most, only decide how many of the complaints are recorded
(`Contract.impartial`).
-/

namespace PatternRules

/-- What a reading comes to: its result, where it ends, whether nesting has been complained about by then,
and what it complains about. -/
structure Outcome (α : Type) where
  result : α
  cursor : Cursor
  nested : Bool
  complaints : List SyntaxError

/-- The state behind: behind earlier errors, complaints are recorded as long as there is room. -/
def Outcome.state {α : Type} (o : Outcome α) (cap : Nat) (errors : List SyntaxError) : ParseState :=
  ⟨o.cursor, errors ++ o.complaints.take (cap - errors.length), o.nested⟩

namespace Parse

variable {α β : Type}

/-- From `c`, `p` comes to `o`, whatever was recorded before and however much may be recorded. -/
def ComesTo (depth : Nat) (c : Cursor) (nested : Bool) (p : Parse α) (o : Outcome α) : Prop :=
  ∀ cap errors, Ensures ⟨depth, cap⟩ ⟨c, errors, nested⟩ p fun a t =>
    a = o.result ∧ t = o.state cap errors

/-- Wherever `p` starts, there is something that it comes to, as long as something may nest. -/
def Impartial (p : Parse α) : Prop :=
  ∀ depth, 0 < depth → ∀ c nested, ∃ o, ComesTo depth c nested p o

/-- Complaints in two goes are recorded like complaints in one. -/
theorem take_in_two (cap : Nat) (errors es es' : List SyntaxError) :
    (errors ++ es.take (cap - errors.length)) ++
        es'.take (cap - (errors ++ es.take (cap - errors.length)).length) =
      errors ++ (es ++ es').take (cap - errors.length) := by
  have room : cap - (errors ++ es.take (cap - errors.length)).length =
      cap - errors.length - es.length := by
    rw [List.length_append, List.length_take]
    omega
  rw [room, List.take_append, List.append_assoc]

/-- What does not complain comes to the same from everywhere. -/
theorem ComesTo.quiet {depth : Nat} {c d : Cursor} {nested nested' : Bool} {p : Parse α} {a : α}
    (h : ∀ cap errors, Ensures ⟨depth, cap⟩ ⟨c, errors, nested⟩ p fun r t =>
      r = a ∧ t = ⟨d, errors, nested'⟩) : ComesTo depth c nested p ⟨a, d, nested', []⟩ := by
  intro cap errors
  refine (h cap errors).mono ?_
  rintro _ _ ⟨rfl, rfl⟩
  exact ⟨rfl, by rw [Outcome.state, List.take_nil, List.append_nil]⟩

/-- Two readings in a row come to what they come to one after the other. -/
theorem ComesTo.bind {depth : Nat} {c : Cursor} {nested : Bool} {p : Parse α} {f : α → Parse β}
    {o : Outcome α} {o' : Outcome β} (h : ComesTo depth c nested p o)
    (h' : ComesTo depth o.cursor o.nested (f o.result) o') : ComesTo depth c nested (p >>= f)
      ⟨o'.result, o'.cursor, o'.nested, o.complaints ++ o'.complaints⟩ := by
  intro cap errors
  refine (h cap errors).bind ?_
  rintro _ _ ⟨rfl, rfl⟩
  refine (h' cap _).mono ?_
  rintro _ _ ⟨rfl, rfl⟩
  refine ⟨rfl, ?_⟩
  rw [Outcome.state, Outcome.state, take_in_two]

theorem ComesTo.report {depth : Nat} {c : Cursor} {nested : Bool} (complaint : Complaint) (span : Span) :
    ComesTo depth c nested (report complaint span) ⟨(), c, nested, [⟨complaint.message, span⟩]⟩ := by
  intro cap errors
  rw [ensures_report]
  refine ⟨rfl, ?_⟩
  rw [ParseState.recording, Outcome.state]
  split
  · next full =>
    rw [Nat.sub_eq_zero_of_le full, List.take_zero, List.append_nil]
  · next room =>
    rw [List.take_of_length_le (Nat.sub_pos_of_lt (Nat.not_le.1 room))]

namespace Impartial

theorem pure (a : α) : Impartial (Pure.pure a) :=
  fun _ _ c nested => ⟨⟨a, c, nested, []⟩, .quiet fun _ _ => ⟨rfl, rfl⟩⟩

theorem bind {p : Parse α} {f : α → Parse β} (h : Impartial p) (next : ∀ a, Impartial (f a)) :
    Impartial (p >>= f) := by
  intro depth room c nested
  obtain ⟨o, ho⟩ := h depth room c nested
  obtain ⟨o', ho'⟩ := next o.result depth room o.cursor o.nested
  exact ⟨_, ho.bind ho'⟩

theorem looking {f : Cursor → Parse α} (h : ∀ c, Impartial (f c)) : Impartial (cursor >>= f) :=
  fun depth room c nested => h c depth room c nested

theorem move (f : Cursor → Cursor) : Impartial (move f) :=
  fun _ _ c nested => ⟨⟨(), f c, nested, []⟩, .quiet fun _ _ => ⟨rfl, rfl⟩⟩

theorem report (complaint : Complaint) (span : Span) : Impartial (report complaint span) :=
  fun _ _ _ _ => ⟨_, .report complaint span⟩

theorem reportHere (complaint : Complaint) : Impartial (reportHere complaint) :=
  .looking fun _ => .report complaint _

/-- What was complained about only decides whether it is complained about again. -/
theorem reportUnlessNested (complaint : Complaint) : Impartial (reportUnlessNested complaint) := by
  intro depth room c nested
  cases nested with
  | false => exact Impartial.reportHere complaint depth room c false
  | true => exact Impartial.pure () depth room c true

theorem reportNesting : Impartial reportNesting := by
  intro depth room c nested
  cases nested with
  | false => exact Impartial.reportHere (.nestingTooDeep depth) depth room c true
  | true => exact Impartial.pure () depth room c true

/-- Nothing is said about places. -/
def placeless : Placeless := ⟨Impartial, .pure, .bind, .looking, .move⟩

theorem accept (match? : Cursor → Option Cursor) : Impartial (accept match?) := placeless.accept match?

theorem afterBlank {p : Parse (Option α)} (h : Impartial p) : Impartial (afterBlank p) := placeless.afterBlank h

theorem string : Impartial string := placeless.string fun span => .report .stringUnterminated span

theorem depth {f : Nat → Parse α} (h : ∀ n, Impartial (f (n + 1))) :
    Impartial (do f (← read).depth) := by
  rintro (_ | n) room c nested
  · cases room
  · exact h n (n + 1) room c nested

end Impartial

end Parse

/-- What a reading comes to does not depend on earlier errors. -/
def Contract.impartial : Contract where
  keeps _ _ p := Parse.Impartial p
  mono _ h := h
  pure _ a := .pure a
  bind h next := .bind h next
  look _ := .looking fun c => .pure c
  start h := .looking h
  moveOn _ _ := .move _
  spanFrom h depth room c nested := h (c.spanFrom _) rfl depth room c nested
  report complaint _ _ _ := .report complaint _
  reportUnlessNested complaint _ := .reportUnlessNested complaint
  tooDeep := .afterBlank (.bind .reportNesting fun _ => .pure none)
  string := .string
  accept _ := .accept _
  eatChar _ yes no := .bind (.accept _) (Bool.rec no yes)
  afterBlank _ h nothing found := .bind (.afterBlank h) (Option.rec nothing found)
  depth h := .depth h

end PatternRules

import PatternRules.Proofs.Located

/-!
Trees are faithful to their source. `Span.source?` cuts the characters of a span out of the text; what a
node says is what stands there.

* `Cursor.source_spanFrom`: what a span covers is what was read, as far as its line goes;
* `Node.ReadFrom.says`: the text of a node is the source at its span;
* `Node.Faithful.digits`: the number of a node is written in decimal at its span;
* `tree_faithful`: both for every node of the tree of every text.
-/

namespace PatternRules

/-- The characters that a span covers, carriage returns included. Nothing, if its line or one of its
columns does not exist. -/
def Span.source? (s : Span) (text : List Char) : Option (List Char) :=
  match (splitLines text)[s.line - 1]? with
  | none => none
  | some line =>
    if 1 ≤ s.line ∧ 1 ≤ s.column ∧ s.column + s.length ≤ line.length + 1 then
      some ((line.drop (s.column - 1)).take s.length)
    else
      none

/-- **A span covers what was read**, as far as its line goes. -/
theorem Cursor.source_spanFrom {text : List Char} {a b : Cursor} (h : (ofChars text).Reaches a)
    (h' : a.Reaches b) : (b.spanFrom a.mark).source? text =
      some ((b.textSince a).take (b.spanFrom a.mark).length) := by
  obtain ⟨front, found, column, positive⟩ := h.line?
  obtain ⟨fits, covered, -⟩ := take_spanFrom h h'
  have line : (b.spanFrom a.mark).line = a.line := rfl
  have start : (b.spanFrom a.mark).column = a.column := rfl
  have within : 1 ≤ a.line ∧ 1 ≤ a.column ∧
      a.column + (b.spanFrom a.mark).length ≤ (front ++ a.lineTail).length + 1 := by
    rw [List.length_append]
    omega
  have behind : (front ++ a.lineTail).drop (a.column - 1) = a.lineTail := by
    rw [column, Nat.add_sub_cancel, List.drop_left]
  simp only [Span.source?, line, start, found, if_pos within, behind, covered]

namespace Node

/-- What the text `v` of a node has to do with its source: the source at the span is how `v` starts, and
all of `v`, unless `v` runs over the line, as that of a resolver flag may. -/
structure Says (text : List Char) (n : Node) (v : String) : Prop where
  source : n.span.source? text = some (v.toList.take n.span.length)
  length : '\n' ∉ v.toList → v.toList.length = n.span.length
  newline : '\n' ∈ v.toList → n.kind = .resolverFlag

/-- What the number of a node has to do with its source: at the span stand one or more digits, and the
number is the one they write, or the largest there is, if theirs is larger. In that case that was reported,
unless all errors that are recorded had been met by then. -/
structure Counts (text : List Char) (errors : List SyntaxError) (n : Node) (digits : List Char) :
    Prop where
  source : n.span.source? text = some digits
  nonempty : digits ≠ []
  areDigits : ∀ c ∈ digits, c.isDigit = true
  value : n.number? = some (min (Nat.ofDigitChars 10 digits 0) (2 ^ 64 - 1))
  reported : 2 ^ 64 ≤ Nat.ofDigitChars 10 digits 0 →
    ⟨(Complaint.numberTooLarge (String.ofList digits)).message, n.span⟩ ∈ errors ∨
      Limits.standard.errors ≤ errors.length ∧ ∀ e ∈ errors, e.span.start ≤ n.span.start

theorem ReadFrom.says {text : List Char} {limits : Limits} {errors : List SyntaxError} {n : Node}
    {a b : Cursor} (ha : (Cursor.ofChars text).Reaches a) (h : ReadFrom n a b)
    (faithful : n.Faithful text limits errors) {v : String} (hv : n.text? = some v) :
    n.Says text v := by
  have value : n.value = some (.text v) := by
    unfold text? at hv
    split at hv
    · next same =>
      cases hv
      exact same
    · cases hv
  -- The value is the text from `a` to `b`.
  have chars : v.toList = b.textSince a := by
    have read := h.value_eq
    rw [value, Kind.valueOf] at read
    split at read
    · cases read
      exact String.toList_ofList
    · split at read <;> cases read
  have span := h.span_eq
  constructor
  · rw [span, chars]
    exact Cursor.source_spanFrom ha h.reaches
  · intro noNewline
    rw [chars] at noNewline ⊢
    rw [span]
    exact ((Cursor.take_spanFrom ha h.reaches).2.2 noNewline).symm
  · intro newline
    by_contra other
    exact faithful.oneLine other v value newline

theorem Faithful.digits {text : List Char} {errors : List SyntaxError} {n : Node}
    (h : n.Faithful text .standard errors) (isNumber : n.kind = .number) :
    ∃ digits, n.Counts text errors digits := by
  obtain ⟨a, ha, nonempty, span, value, reported⟩ := h.number isNumber
  have isDigit : ∀ c ∈ a.run Char.isDigit, c.isDigit = true := fun c hc => List.mem_takeWhile_imp hc
  have noNewline : '\n' ∉ a.run Char.isDigit := fun newline => by cases isDigit _ newline
  have read : (a.skipWhile Char.isDigit).textSince a = a.run Char.isDigit := Parse.textSince_run a _
  have reaches := Cursor.reaches_skipWhile a Char.isDigit
  have length := (Cursor.take_spanFrom ha reaches).2.2
  rw [read] at length
  refine ⟨a.run Char.isDigit, ?_, nonempty, isDigit, ?_, ?_⟩
  · rw [span, Cursor.source_spanFrom ha reaches, read, length noNewline, List.take_length]
  · rw [number?, value]
    rfl
  · intro large
    rcases reported with small | reported
    · have : decimalValue (a.run Char.isDigit) = Nat.ofDigitChars 10 (a.run Char.isDigit) 0 := rfl
      rw [this, Value.maxNumber] at small
      omega
    · exact reported

end Node

theorem faithful_of_mem_nodes {text : String} {n : Node} (hn : n ∈ (readDocument text).tree.nodes) :
    n.Faithful text.toList .standard (readDocument text).errors := by
  rw [errors_readDocument]
  rw [tree_readDocument] at hn
  exact readWithin_faithful .standard text.toList n hn

theorem says_of_mem_nodes {text : String} {n : Node} (hn : n ∈ (readDocument text).tree.nodes) {v : String}
    (hv : n.text? = some v) : n.Says text.toList v := by
  obtain ⟨a, b, reached, read⟩ := readFrom_of_mem_nodes hn
  exact read.says reached (faithful_of_mem_nodes hn) hv

/-- **Trees are faithful to their source.** The text of every node is what stands at its span, and the
number of every number node is what the digits at its span write. -/
theorem tree_faithful (text : String) : ∀ n ∈ (readDocument text).tree.nodes,
    (∀ v, n.text? = some v → n.Says text.toList v) ∧
    (n.kind = .number → ∃ digits, n.Counts text.toList (readDocument text).errors digits) :=
  fun _ hn => ⟨fun _ => says_of_mem_nodes hn, (faithful_of_mem_nodes hn).digits⟩

theorem tree_faithful_range : ∃ n ∈ (readDocument "r = a\x7b20,3\x7d").tree.nodes,
    n.kind = .number ∧ ∃ digits, n.Counts "r = a\x7b20,3\x7d".toList
      (readDocument "r = a\x7b20,3\x7d").errors digits := by
  have some : (readDocument "r = a\x7b20,3\x7d").tree.nodes.any (·.kind == .number) = true := by
    decide
  obtain ⟨n, hn, kind⟩ := List.any_eq_true.1 some
  have isNumber : n.kind = .number := beq_iff_eq.1 kind
  exact ⟨n, hn, isNumber, (tree_faithful _ n hn).2 isNumber⟩

end PatternRules
